import ZmqOut.Steps

/-!
What a consumer learns of the frames. doHandle builds the object it pushes from the
empty one; the context is looked at for the log alone, and parseJson, which would
turn it into an object, is declared and nowhere defined.
-/
namespace ZmqOut.Relay
open ZmqOut.Codec ZmqOut.DataStream ZmqOut.Variant ZmqOut.Sockets ZmqOut.Server ZmqOut.Steps

/-- One call of handle, with the clock and the return codes of its sends. -/
structure Call where
  process : Process
  handler : ZmqOutHandler
  frame : data_frame
  duration : UInt64
  rc : Nat → Int
  /-- The handler has the address of the server's vector. -/
  attached : handler.subscribers_sockets = process.server.socketsAddr

/-- The object that a text denotes, if it is that of one. -/
def object (qt : Qt) (text : List UInt16) : Option QVariantMap :=
  match qt.fromJson (toUtf8 text) with
  | .object fields => some fields
  | .null | .array => none

/-- What the consumer makes of a message: one readQString, then json.loads. -/
def consume (qt : Qt) (message : List UInt8) : Option QVariantMap :=
  (readQString ⟨message,.Ok⟩).1.bind (object qt)

namespace Call

/-- The messages that the call passes to zmq_msg_send. -/
def pushed (qt : Qt) (c : Call) : List (List UInt8) :=
  match c.process.handle qt c.handler c.frame c.duration c.rc with
  | some p => (p.zmq.sends.drop c.process.zmq.sends.length).map Send.data
  | none => []

/-- The object that the frame carries. -/
def received (qt : Qt) (c : Call) : Option QVariantMap := c.frame.context.bind (object qt)

end Call

/-- The objects have the same values, except perhaps for node_check_end. -/
def AgreeOutside (fields fields' : QVariantMap) : Prop :=
  ∀ name, name ≠ key "node_check_end" → fields.lookup name = fields'.lookup name

/-- What is pushed for an object is an object that agrees with it. -/
def Relays (qt : Qt) (c : Call) : Prop :=
  ∀ fields, c.received qt = some fields → ∀ message ∈ c.pushed qt,
    ∃ out, consume qt message = some out ∧ AgreeOutside fields out

/-- Frames that carry different objects are not pushed as the same one. -/
def TellsApart (qt : Qt) (c c' : Call) : Prop :=
  ∀ fields fields', c.received qt = some fields → c'.received qt = some fields' → ¬ AgreeOutside fields fields' →
    ∀ message ∈ c.pushed qt, ∀ message' ∈ c'.pushed qt, consume qt message ≠ consume qt message'

/-- There is nothing to relay, or nobody to relay it to. -/
def NothingToRelay (qt : Qt) (c : Call) : Prop :=
  c.process.server.subscribers_sockets = [] ∨ ∀ fields, c.received qt = some fields → AgreeOutside fields []

/-- Qt prints a duration as a text that it reads back, within its limit for strings. -/
structure Prints (qt : Qt) (duration : UInt64) : Prop where
  short : FitsString (some (qt.toJson [(key "node_check_end",.double duration)]))
  back : ∃ v, object qt (qt.toJson [(key "node_check_end",.double duration)]) = some [(key "node_check_end",v)]

/-- Every subscriber gets one message, which is made of the duration alone. -/
theorem pushed_eq (qt : Qt) (c : Call) :
    c.pushed qt = c.process.server.subscribers_sockets.map fun _ => payload qt c.duration := by
  obtain ⟨sends,executed,passed⟩ :=
    sendLoop_eq (payload qt c.duration) c.rc 0 c.process.server.subscribers_sockets c.process.zmq
  have handled : c.process.handle qt c.handler c.frame c.duration c.rc =
      some { c.process with zmq := { c.process.zmq with sends := c.process.zmq.sends ++ sends } } := by
    rw [Process.handle,Process.vector?,if_pos c.attached,← executed]
    rfl
  have data := congrArg (List.map Prod.snd) passed
  rw [Call.pushed,handled]
  simpa only [List.drop_left,List.map_map,Function.comp_def] using data

/-- The messages of a call are all the same. -/
theorem mem_pushed {qt : Qt} {c : Call} {message : List UInt8} :
    message ∈ c.pushed qt ↔ c.process.server.subscribers_sockets ≠ [] ∧ message = payload qt c.duration := by
  rw [pushed_eq,List.mem_map]
  constructor
  · rintro ⟨socket,listed,rfl⟩
    exact ⟨List.ne_nil_of_mem listed,rfl⟩
  · rintro ⟨subscribed,rfl⟩
    obtain ⟨socket,listed⟩ := List.exists_mem_of_ne_nil _ subscribed
    exact ⟨socket,listed,rfl⟩

/-- The consumer sees the duration and nothing else. -/
theorem consume_payload {qt : Qt} {duration : UInt64} (prints : Prints qt duration) :
    ∃ out, consume qt (payload qt duration) = some out ∧ AgreeOutside [] out := by
  obtain ⟨v,back⟩ := prints.back
  have read := decoded_some.mp (readQString_inverts.complete _ prints.short [])
  rw [List.append_nil] at read
  refine ⟨[(key "node_check_end",v)],?_,?_⟩
  · rw [consume,payload,read]
    exact back
  · intro name other
    rw [List.lookup_cons,beq_eq_false_iff_ne.mpr other]

theorem relays_call_iff {qt : Qt} {c : Call} (prints : Prints qt c.duration) : Relays qt c ↔ NothingToRelay qt c := by
  obtain ⟨out,consumed,bare⟩ := consume_payload prints
  constructor
  · intro relays
    by_cases empty : c.process.server.subscribers_sockets = []
    · exact .inl empty
    · refine .inr fun fields received => ?_
      obtain ⟨out',consumed',agree⟩ := relays fields received _ (mem_pushed.mpr ⟨empty,rfl⟩)
      rw [consumed] at consumed'
      cases consumed'
      intro name other
      rw [agree name other,bare name other]
  · rintro nothing fields received message member
    obtain ⟨subscribed,rfl⟩ := mem_pushed.mp member
    have none := nothing.resolve_left subscribed fields received
    exact ⟨out,consumed,fun name other => (none name other).trans (bare name other)⟩

/-- Two calls of handle relay what they receive, and keep it apart, if and only if neither has
    anything to relay: there is no subscriber, or the object has no key but node_check_end. -/
theorem relays_iff (qt : Qt) (c c' : Call) (prints : Prints qt c.duration) (prints' : Prints qt c'.duration) :
    Relays qt c ∧ Relays qt c' ∧ TellsApart qt c c' ↔ NothingToRelay qt c ∧ NothingToRelay qt c' := by
  rw [relays_call_iff prints,relays_call_iff prints']
  constructor
  · rintro ⟨nothing,nothing',-⟩
    exact ⟨nothing,nothing'⟩
  · rintro ⟨nothing,nothing'⟩
    refine ⟨nothing,nothing',?_⟩
    intro fields fields' received received' differ message member message' member'
    have bare := nothing.resolve_left (mem_pushed.mp member).1 fields received
    have bare' := nothing'.resolve_left (mem_pushed.mp member').1 fields' received'
    exact absurd (fun name other => (bare name other).trans (bare' name other).symm) differ

/-- A call with one subscriber for a frame with this context. -/
def callOf (context : String) : Call where
  process := (construct 0 ⟨1,Nat.one_pos⟩).register (literal "tcp://*:1") .granted
  handler := (ZmqOutHandler.new 0).setSubscriberSocks 1
  frame := ⟨some (key context),none⟩
  duration := 0
  rc := fun _ => 0
  attached := rfl

/-- Qt on three objects and on the text that it prints for the duration 0. -/
def jsonTable : Qt := .table
  [(literal "\x7b\n    \"node_check_end\": 0\n\x7d\n",[(key "node_check_end",.double 0)]),
    (literal "\x7b\x7d",[]),
    (literal "\x7b\"id\":\"a\"\x7d",[(key "id",.string (key "a"))]),
    (literal "\x7b\"id\":\"b\"\x7d",[(key "id",.string (key "b"))])]

theorem jsonTable_prints : Prints jsonTable 0 := by
  refine ⟨?_,.double 0,rfl⟩
  rintro units ⟨⟩
  decide

theorem relays_empty_object : Relays jsonTable (callOf "\x7b\x7d") ∧ Relays jsonTable (callOf "\x7b\x7d") ∧
    TellsApart jsonTable (callOf "\x7b\x7d") (callOf "\x7b\x7d") := by
  refine (relays_iff jsonTable (callOf "\x7b\x7d") (callOf "\x7b\x7d") jsonTable_prints jsonTable_prints).mpr ?_
  have nothing : NothingToRelay jsonTable (callOf "\x7b\x7d") := by
    refine .inr fun fields received => ?_
    cases received
    intro name _
    rfl
  exact ⟨nothing,nothing⟩

/-- Two contexts are pushed without their id, as the same object. -/
theorem context_lost : ¬ Relays jsonTable (callOf "\x7b\"id\":\"a\"\x7d") ∧
    ¬ TellsApart jsonTable (callOf "\x7b\"id\":\"a\"\x7d") (callOf "\x7b\"id\":\"b\"\x7d") := by
  constructor
  · intro relays
    obtain ⟨out,consumed,agree⟩ := relays _ rfl _ (List.mem_singleton.mpr rfl)
    cases consumed
    cases agree (key "id") (by decide)
  · intro apart
    refine apart _ _ rfl rfl ?_ _ (List.mem_singleton.mpr rfl) _ (List.mem_singleton.mpr rfl) rfl
    intro agree
    have same : some (QVariant.string (key "a")) = some (QVariant.string (key "b")) := agree (key "id") (by decide)
    exact absurd (QVariant.string.inj (Option.some.inj same)) (by decide)

end ZmqOut.Relay
