import Bp2p.Node
import Bp2p.RequestFormat

/-! # The list of torrents on the wire

A server writes its torrents' names with a separator behind each and removes the
last separator; the client splits what it receives. For names without bars the
client gets back the server's list, except that it always reads at least one
name, so an empty list comes back as the list of the empty name
(`Bp2p.parse_serialize_eq_iff`). This is what the client's `dev2tor` then holds
(`Bp2p.dev2tor_eq_names_iff`).
-/

namespace Bp2p

open RRPacket TorrentListReq

/-- A separator behind every name is one behind the joined names. -/
theorem flatMap_sep (sep first : Bytes) (rest : List Bytes) :
    (first :: rest).flatMap (fun name => name ++ sep) =
      sep.intercalate (first :: rest) ++ sep := by
  induction rest generalizing first with
  | nil =>
      simp only [List.flatMap_cons, List.flatMap_nil, List.append_nil, List.intercalate_singleton]
  | cons second rest ih =>
      rw [List.flatMap_cons, ih second, List.intercalate_cons_cons]
      simp only [List.append_assoc]

theorem serializeTorrentList_nil : serializeTorrentList [] = [] := rfl

/-- The names of a server that has any, joined by the separator. The length test
leaves the separator only behind a single empty name. -/
theorem serializeTorrentList_cons {first : Bytes} {rest : List Bytes} (named : first ≠ []) :
    serializeTorrentList (first :: rest) = commSeparator.val.intercalate (first :: rest) := by
  have positive := List.length_pos_of_ne_nil named
  have joined := flatMap_sep commSeparator.val first rest
  have long : 2 < ((first :: rest).flatMap fun name => name ++ commSeparator.val).length := by
    have two : commSeparator.val.length = 2 := rfl
    simp only [List.flatMap_cons, List.length_append, two]
    omega
  unfold serializeTorrentList
  simp only [long, ↓reduceIte]
  rw [joined, show commSeparator.val = [bar] ++ [bar] from rfl, ← List.append_assoc,
    List.dropLast_concat, List.dropLast_concat]

/-- Splitting names joined by the separator gives the names back exactly when
every name with a separator behind it is shorter than `2 ^ 31` bytes. -/
theorem tokenize_intercalate_eq_iff {first : Bytes} {rest : List Bytes}
    (plain : ∀ name ∈ first :: rest, bar ∉ name) :
    Utils.tokenize (commSeparator.val.intercalate (first :: rest)) commSeparator [] =
        first :: rest ↔
      ∀ name ∈ (first :: rest).dropLast, name.length < 2 ^ 31 := by
  induction rest generalizing first with
  | nil =>
      have missing : Separator.find commSeparator.val first = none :=
        Separator.find_eq_none_iff.mpr fun occurs =>
          plain first List.mem_cons_self (occurs.subset List.mem_cons_self)
      rw [List.intercalate_singleton, Utils.tokenize_of_find_none missing]
      simp only [List.dropLast_singleton, List.not_mem_nil, false_implies, implies_true]
  | cons second rest ih =>
      have clean := clean_of_bar_notMem (plain first List.mem_cons_self)
      rw [List.intercalate_cons_cons, Utils.tokenize_clean_append _ clean, List.cons.injEq,
        substr_eq_piece_iff commSeparator.property,
        ih fun name member => plain name (List.mem_cons_of_mem _ member),
        List.dropLast_cons_cons, List.forall_mem_cons]

/-- **The round trip of the list.** The client reads the server's names back
exactly when there are any and all but the last are shorter than `2 ^ 31`
bytes. -/
theorem parse_serialize_eq_iff {names : List Bytes} (named : ∀ name ∈ names, name ≠ [])
    (plain : ∀ name ∈ names, bar ∉ name) :
    parseTorrentList (serializeTorrentList names) = names ↔
      names ≠ [] ∧ ∀ name ∈ names.dropLast, name.length < 2 ^ 31 := by
  cases names with
  | nil =>
      rw [serializeTorrentList_nil]
      exact iff_of_false (tokenize_ne_nil [] commSeparator) (fun both => both.1 rfl)
  | cons first rest =>
      rw [serializeTorrentList_cons (named first List.mem_cons_self), parseTorrentList,
        tokenize_intercalate_eq_iff plain]
      exact (and_iff_right (List.cons_ne_nil _ _)).symm

/-- A client carries out a list request with the response the server builds for
whatever request message it received, and completes it. -/
def exchangeList (env : Env) (choices : Server) (server client : Node) (received : Message)
    (req : TorrentListReq) : Option Node := do
  let (_, packet) ← server.processPacket env choices (.list { req := received })
  let req ← Node.carryOutRequest (.list req) (some packet.base.rsp)
  client.completeRequest env choices req

/-- The client holds what it parses from the server's list. -/
theorem exchangeList_eq (env : Env) (choices : Server) (server client : Node) (received : Message)
    (req : TorrentListReq) :
    ∃ after, exchangeList env choices server client received req = some after ∧
      after.dev2tor[req.remoteAddr]? =
        some (parseTorrentList (serializeTorrentList server.getTorrentNameList)) := by
  refine ⟨_, rfl, ?_⟩
  exact Std.TreeMap.getElem?_insert_self

/-- **The list of torrents.** The client's entry for the server is the list of the
server's names exactly when the server has a torrent and all names but the last are
shorter than `2 ^ 31` bytes. -/
theorem dev2tor_eq_names_iff (env : Env) (choices : Server) (server client : Node)
    (received : Message) (req : TorrentListReq)
    (named : ∀ name ∈ server.getTorrentNameList, name ≠ [])
    (plain : ∀ name ∈ server.getTorrentNameList, bar ∉ name) :
    (∃ after, exchangeList env choices server client received req = some after ∧
      after.dev2tor[req.remoteAddr]? = some server.getTorrentNameList) ↔
    server.getTorrentNameList ≠ [] ∧
      ∀ name ∈ server.getTorrentNameList.dropLast, name.length < 2 ^ 31 := by
  obtain ⟨after, exchanged, entry⟩ := exchangeList_eq env choices server client received req
  rw [← parse_serialize_eq_iff named plain]
  constructor
  · rintro ⟨other, same, names⟩
    rw [exchanged, Option.some.injEq] at same
    rwa [← same, entry, Option.some.injEq] at names
  · intro names
    exact ⟨after, exchanged, by rw [entry, names]⟩

/-- A server with the torrents `a` and `b`. -/
theorem dev2tor_eq_names_two :
    let names : List (Bytes × Torrent) := [([97], {}), ([98], {})]
    let server : Node := { name2torrent := .ofList names }
    ∃ after, exchangeList (.byLength .null) ⟨.insertion, fun _ => false⟩ server {} {} {} =
        some after ∧ after.dev2tor[DeviceDescriptor.mk []]? = some [[97], [98]] := by
  intro names server
  exact (dev2tor_eq_names_iff _ _ server {} {} {} (by decide) (by decide)).mpr (by decide)

/-- A server without torrents refutes the round trip. -/
theorem dev2tor_eq_names_fails :
    ¬ ∀ (env : Env) (choices : Server) (server client : Node) (received : Message)
      (req : TorrentListReq), (∀ name ∈ server.getTorrentNameList, name ≠ [] ∧ bar ∉ name) →
      ∃ after, exchangeList env choices server client received req = some after ∧
        after.dev2tor[req.remoteAddr]? = some server.getTorrentNameList := by
  intro always
  obtain ⟨after, exchanged, entry⟩ := always (.byLength .null) ⟨.insertion, fun _ => false⟩
    {} {} {} {} (by decide)
  obtain ⟨other, same, parsed⟩ := exchangeList_eq (.byLength .null)
    ⟨.insertion, fun _ => false⟩ {} {} {} {}
  rw [exchanged, Option.some.injEq] at same
  rw [← same, entry, Option.some.injEq] at parsed
  have none : ({} : Node).getTorrentNameList = [] := by decide
  rw [none, serializeTorrentList_nil] at parsed
  exact tokenize_ne_nil [] commSeparator parsed.symm

end Bp2p
