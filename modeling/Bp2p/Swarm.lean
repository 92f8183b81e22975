import Bp2p.Informed
import Bp2p.Names
import Bp2p.TorrentListFormat

/-! # A swarm of nodes

Nodes that ask each other, over any channel that delivers requests whole and front parts of
answers. A device answers whatever request comes to it as the node that owns it processes it.
What it has sent stays with the swarm: a client may take a front part of an answer to its request
at any later time and as often as it asks, or get none. What the nodes know of each other is true
all the same if the lists of torrents come whole: wherever a device is listed for a torrent, the
node that owns the device has a torrent of that name (`Bp2p.Swarm.offers_sound`).
-/

namespace Bp2p

open RRPacket

/-- An answer that a device has sent to a request. -/
structure Answer where
  dev : DeviceDescriptor
  req : Message
  rsp : Message

/-- Nodes, and the answers on their way between them. -/
structure Swarm (ι : Type) where
  nodes : ι → System
  answers : List Answer := []

namespace Swarm

variable {ι : Type}

/-- The device asked has sent this to the request. -/
def Sent (swarm : Swarm ι) (req : Packet) (data : Bytes) : Prop :=
  ∃ answer ∈ swarm.answers, answer.dev = req.base.remoteAddr ∧
    answer.req = req.createRequest.base.req ∧ answer.rsp.data = data

/-- What has come is a front part of what the device asked has sent to the request. -/
def Answered (swarm : Swarm ι) (req : Packet) (rsp : Message) : Prop :=
  ∃ data, swarm.Sent req data ∧ rsp.data <+: data

/-- A list has come whole. -/
def AnsweredWhole (swarm : Swarm ι) (req : Packet) (rsp : Message) : Prop :=
  ∀ list, req = .list list → swarm.Sent req rsp.data

/-- What a step of a node takes as an answer is one. Requests of other commands are completed
where they were carried out; answers are steps of their own. -/
def Takes (answered : Packet → Message → Prop) (system : System) : System.Label → Prop
  | .jobManager _ transport _ => ∀ req rsp, system.node.jobs.head? = some req →
      transport = some rsp → answered req rsp
  | .statement _ transport draws => ∀ req rsp, system.asks draws = some req →
      transport = some rsp → answered req rsp
  | .complete _ req => ∃ asked rsp, asked.base.req = {} ∧
      asked.createRequest.processResponse rsp = .ok req ∧ answered asked rsp
  | .serve .. => False
  | _ => True

/-- What happens in a swarm. -/
inductive Label (ι : Type)
  | act (i : ι) (label : System.Label)
  | answer (dev : DeviceDescriptor) (server : Server) (req : Message) (memory : Bytes)

/-- Steps of the nodes, and answers that are computed. -/
inductive Step [DecidableEq ι] (env : Env) (owner : DeviceDescriptor → ι) :
    Swarm ι → Label ι → Swarm ι → Prop
  | act {swarm : Swarm ι} {i : ι} {label : System.Label} {after : System}
      (takes : Takes swarm.Answered (swarm.nodes i) label)
      (step : System.Step env (swarm.nodes i) label after) :
      Step env owner swarm (.act i label)
        { swarm with nodes := Function.update swarm.nodes i after }
  | answer {swarm : Swarm ι} {dev : DeviceDescriptor} {server : Server} {req rsp : Message}
      {memory : Bytes} {after : Node}
      (answered : (swarm.nodes (owner dev)).node.processRequest env server req memory =
        some (after, rsp)) :
      Step env owner swarm (.answer dev server req memory)
        { nodes := Function.update swarm.nodes (owner dev)
            { swarm.nodes (owner dev) with node := after }
          answers := ⟨dev, req, rsp⟩ :: swarm.answers }

end Swarm

/-- A name that is sent and read whole. -/
def Plain (name : Bytes) : Prop := bar ∉ name ∧ name.length < 2 ^ 31

/-- What a client reads from a list of plain names is one of them or empty. -/
theorem mem_parse_serialize {names : List Bytes} (plain : ∀ name ∈ names, Plain name)
    {name : Bytes}
    (read : name ∈ TorrentListReq.parseTorrentList (TorrentListReq.serializeTorrentList names)) :
    name = [] ∨ name ∈ names := by
  have empty : Utils.tokenize [] commSeparator [] = [[]] := Utils.tokenize_of_find_none rfl
  cases names with
  | nil =>
      rw [serializeTorrentList_nil, TorrentListReq.parseTorrentList, empty] at read
      exact .inl (List.mem_singleton.mp read)
  | cons first rest =>
      have joined := flatMap_sep commSeparator.val first rest
      unfold TorrentListReq.serializeTorrentList at read
      by_cases long :
          2 < ((first :: rest).flatMap fun name => name ++ commSeparator.val).length
      · simp only [long, ↓reduceIte] at read
        rw [joined, show commSeparator.val = [bar] ++ [bar] from rfl, ← List.append_assoc,
          List.dropLast_concat, List.dropLast_concat, TorrentListReq.parseTorrentList] at read
        have whole := (tokenize_intercalate_eq_iff fun name member => (plain name member).1).mpr
          fun name member => (plain name (List.mem_of_mem_dropLast member)).2
        rw [show [bar] ++ [bar] = commSeparator.val from rfl, whole] at read
        exact .inr read
      · simp only [long, ↓reduceIte] at read
        -- a single empty name
        rw [List.flatMap_cons] at long read
        have two : commSeparator.val.length = 2 := rfl
        simp only [List.length_append, two] at long
        have nameless : first = [] := List.eq_nil_of_length_eq_zero (by omega)
        have alone : (rest.flatMap fun name => name ++ commSeparator.val) = [] :=
          List.eq_nil_of_length_eq_zero (by omega)
        rw [alone, nameless, TorrentListReq.parseTorrentList,
          Utils.tokenize_clean_append_of_lt (clean_of_bar_notMem List.not_mem_nil) (by decide),
          empty, List.mem_pair, or_self] at read
        exact .inl read

/-- Reading more digits makes no number less. -/
theorem le_foldl_value (digits : Bytes) (total : Nat) :
    total ≤ digits.foldl (fun total byte => 10 * total + Decimal.digitValue byte) total := by
  induction digits generalizing total with
  | nil => exact Nat.le_refl _
  | cons digit rest ih =>
      rw [List.foldl_cons]
      exact Nat.le_trans (by omega) (ih _)

/-- Whatever stands behind `1`, the number is read as 1 or is no type. -/
theorem ofCode_of_stoi {rest : Bytes} {code : Int32} (read : stoi (49 :: rest) = .ok code) :
    RequestType.ofCode code = some .torrentList ∨ RequestType.ofCode code = none := by
  have parts : strtolParts (49 :: rest) = (false, 49 :: rest.takeWhile Decimal.isDigit) := rfl
  simp only [stoi, parts, List.isEmpty_cons, Bool.false_eq_true, ↓reduceIte] at read
  split at read
  · next small =>
      cases read
      generalize rest.takeWhile Decimal.isDigit = behind at small ⊢
      cases behind with
      | nil => exact .inl rfl
      | cons digit digits =>
          right
          have large : 10 ≤ Decimal.value (49 :: digit :: digits) :=
            Nat.le_trans (Nat.le_add_right 10 (Decimal.digitValue digit))
              (le_foldl_value digits (10 + Decimal.digitValue digit))
          rw [RequestType.ofCode, List.find?_eq_none]
          intro type _ same
          have number := congrArg Int32.toInt (beq_iff_eq.mp same)
          rw [Int32.toInt_ofInt_of_le (by omega) (by omega)] at number
          have bound : type.code.toInt ≤ 4 := by cases type <;> decide
          omega
  · cases read

/-- The type of a list request is read, or none is. -/
theorem create_requestHead {req : Message} (list : req.data = requestHead .torrentList)
    (memory : Bytes) :
    RRFactory.create req memory = some (.list { req }) ∨ RRFactory.create req memory = none := by
  have long : ¬ req.data.length ≤ (commString ++ commSeparator.val).length := by
    rw [list]
    decide
  have found : Separator.find (commString ++ commSeparator.val) req.data = some 0 := by
    rw [list]
    decide
  have last : req.data.drop (commString ++ commSeparator.val).length = [49] := by
    rw [list]
    decide
  have text : cString ([49] ++ memory) = 49 :: cString memory :=
    List.takeWhile_cons_of_pos (by decide)
  unfold RRFactory.create RRFactory.getReqTypeFromReq
  simp only [long, found, last, text, ne_eq, not_true_eq_false, ↓reduceIte]
  cases read : stoi (49 :: cString memory) with
  | error thrown => exact .inr rfl
  | ok code =>
      rcases ofCode_of_stoi read with list | none
      · simp only [list, true_or]
      · simp only [none, or_true]

/-- A list request is answered with the names of the torrents or with nothing. -/
theorem processRequest_requestHead {env : Env} {server : Server} {node after : Node}
    {req rsp : Message} {memory : Bytes} (list : req.data = requestHead .torrentList)
    (answered : node.processRequest env server req memory = some (after, rsp)) :
    rsp.data = [] ∨ rsp.data = TorrentListReq.serializeTorrentList node.getTorrentNameList := by
  unfold Node.processRequest at answered
  rcases create_requestHead list memory with list | none
  · simp only [list, Node.processPacket, bind, Option.bind_some, Option.some.injEq,
      Prod.mk.injEq] at answered
    rw [← answered.2]
    exact .inr (List.nil_append _)
  · simp only [none, Option.some.injEq, Prod.mk.injEq] at answered
    rw [← answered.2]
    exact .inl rfl

namespace Swarm

variable {ι : Type} {owner : DeviceDescriptor → ι} {swarm after : Swarm ι} {env : Env}

/-- The node that owns the device has a torrent of the name; the empty name is none. -/
def Offers (owner : DeviceDescriptor → ι) (swarm : Swarm ι) (dev : DeviceDescriptor)
    (name : Bytes) : Prop :=
  name = [] ∨ name ∈ (swarm.nodes (owner dev)).node.name2torrent

/-- The names that commands bring are plain, no node reads its torrents again, and lists come
whole. -/
def Brings (swarm : Swarm ι) : Label ι → Prop
  | .act i label =>
      System.Brings Plain label ∧ Takes swarm.AnsweredWhole (swarm.nodes i) label
  | .answer .. => True

/-- What the nodes know and what is on its way is true. -/
structure Sound (owner : DeviceDescriptor → ι) (swarm : Swarm ι) : Prop where
  informed : ∀ i, (swarm.nodes i).node.Informed (swarm.Offers owner)
  names : ∀ i, (swarm.nodes i).Names Plain
  answered : ∀ answer ∈ swarm.answers, answer.req.data = requestHead .torrentList →
    ∀ name ∈ TorrentListReq.parseTorrentList answer.rsp.data, swarm.Offers owner answer.dev name

/-- The nodes know nothing yet, and nothing is on its way. -/
structure Begins (swarm : Swarm ι) : Prop where
  dev2tor : ∀ i, (swarm.nodes i).node.dev2tor = {}
  torName2dev : ∀ i, (swarm.nodes i).node.torName2dev = {}
  jobs : ∀ i, (swarm.nodes i).node.jobs = []
  main : ∀ i, (swarm.nodes i).main = .idle
  plain : ∀ i, ∀ name ∈ (swarm.nodes i).node.name2torrent, Plain name
  answers : swarm.answers = []

/-- Where nothing is known, all that is known is so. -/
theorem Begins.sound (begins : swarm.Begins) : swarm.Sound owner where
  informed i := by
    refine ⟨fun dev names found => ?_, fun name devs found => ?_, fun req member => ?_⟩
    · rw [begins.dev2tor, Std.TreeMap.getElem?_emptyc] at found
      cases found
    · rw [begins.torName2dev, Std.TreeMap.getElem?_emptyc] at found
      cases found
    · rw [begins.jobs] at member
      cases member
  names i := by
    refine ⟨begins.plain i, fun job member => ?_, fun name about => ?_⟩
    · rw [begins.jobs] at member
      cases member
    · rw [begins.main] at about
      cases about
  answered answer member := by
    rw [begins.answers] at member
    cases member

/-- What is sent to a client that asks for a list is offered by the device asked. -/
theorem Sound.hears (sound : swarm.Sound owner) {req : Packet} {rsp : Message}
    (whole : swarm.AnsweredWhole req rsp) : Node.Hears (swarm.Offers owner) req rsp := by
  rintro list rfl new
  obtain ⟨answer, member, dev, asked, data⟩ := whole list rfl
  have listed : answer.req.data = requestHead .torrentList := by
    rw [asked]
    simp only [Packet.createRequest, Packet.base, TorrentListReq.createRequest, new, Message.push,
      List.nil_append]
  intro name read
  rw [← data] at read
  have offers := sound.answered answer member listed name read
  rwa [dev] at offers

/-- What a step takes is what a device offers. -/
theorem Sound.takes (sound : swarm.Sound owner) {system : System} {label : System.Label}
    (takes : Takes swarm.AnsweredWhole system label) :
    system.Hears (swarm.Offers owner) label := by
  cases label with
  | jobManager => exact fun req rsp front sent => sound.hears (takes req rsp front sent)
  | statement => exact fun req rsp asked sent => sound.hears (takes req rsp asked sent)
  | complete server req =>
      obtain ⟨asked, rsp, new, read, answered⟩ := takes
      refine Node.Informed.told (sound.hears answered) (fun list isList => ?_) read
      subst isList
      exact new
  | requestTorrentData | createTorrent | populateLocalTorrents | serve | edit => trivial

variable [DecidableEq ι]

/-- A node that gains torrents offers no less. -/
theorem Offers.update {i : ι} {system : System} {named : Bytes → Prop}
    (gains : (swarm.nodes i).node.Gains named system.node) {answers : List Answer}
    (dev : DeviceDescriptor) (name : Bytes) (offers : swarm.Offers owner dev name) :
    (Swarm.mk (Function.update swarm.nodes i system) answers).Offers owner dev name := by
  refine offers.imp_right fun member => ?_
  have kept : ∀ j, name ∈ (swarm.nodes j).node.name2torrent →
      name ∈ (Function.update swarm.nodes i system j).node.name2torrent :=
    (Function.forall_update_iff swarm.nodes fun j system =>
      name ∈ (swarm.nodes j).node.name2torrent → name ∈ system.node.name2torrent).mpr
      ⟨gains.keeps name, fun _ _ => id⟩
  exact kept _ member

/-- A step of one node, with answers of which the same holds as before. -/
theorem Sound.act (sound : swarm.Sound owner) {i : ι} {label : System.Label} {system : System}
    {answers : List Answer} (step : System.Step env (swarm.nodes i) label system)
    (hears : (swarm.nodes i).Hears (swarm.Offers owner) label)
    (brings : System.Brings Plain label)
    (answered : ∀ answer ∈ answers, answer.req.data = requestHead .torrentList →
      ∀ name ∈ TorrentListReq.parseTorrentList answer.rsp.data,
        swarm.Offers owner answer.dev name) :
    (Swarm.mk (Function.update swarm.nodes i system) answers).Sound owner := by
  have more : ∀ dev name, swarm.Offers owner dev name →
      (Swarm.mk (Function.update swarm.nodes i system) answers).Offers owner dev name :=
    Offers.update (step.gains (sound.names i) brings)
  refine ⟨?_, ?_, fun answer member list name read => ?_⟩
  · exact (Function.forall_update_iff swarm.nodes fun _ system => system.node.Informed _).mpr
      ⟨(step.informed (sound.informed i) hears).mono more,
        fun j _ => (sound.informed j).mono more⟩
  · exact (Function.forall_update_iff swarm.nodes fun _ system => system.Names Plain).mpr
      ⟨step.names (sound.names i) brings, fun j _ => sound.names j⟩
  · exact more _ _ (answered answer member list name read)

/-- What is known stays so in every step. -/
theorem Step.sound {label : Label ι} (step : Step env owner swarm label after)
    (sound : swarm.Sound owner) (brings : swarm.Brings label) : after.Sound owner := by
  cases step with
  | act _ step => exact sound.act step (sound.takes brings.2) brings.1 sound.answered
  | @answer dev server req rsp memory node answered =>
      refine sound.act (.serve answered) trivial trivial fun answer member list => ?_
      rcases List.mem_cons.mp member with rfl | earlier
      · intro name read
        rcases processRequest_requestHead list answered with nothing | names
        · have empty : Utils.tokenize [] commSeparator [] = [[]] :=
            Utils.tokenize_of_find_none rfl
          rw [nothing, TorrentListReq.parseTorrentList, empty] at read
          exact .inl (List.mem_singleton.mp read)
        · rw [names] at read
          refine (mem_parse_serialize (fun name member => ?_) read).imp_right fun member => ?_
          · exact (sound.names _).torrents name (Std.TreeMap.mem_keys.mp member)
          · exact Std.TreeMap.mem_keys.mp member
      · exact sound.answered answer earlier list

end Swarm

end Bp2p
