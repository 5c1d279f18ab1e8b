import ZmqOut.Lanes
import ZmqOut.Relay

/-!
Where the messages of a node come from. In every interleaving each call of zmq_msg_send
has a socket that a subscribe asked for, never one of a worker, and a message
made of a reading of the clock alone.
-/
namespace ZmqOut.Messages
open ZmqOut.Runs ZmqOut.DataStream ZmqOut.Variant ZmqOut.Sockets ZmqOut.Steps ZmqOut.Threads ZmqOut.Turns ZmqOut.Operations
open ZmqOut.Lanes
open ZmqOut.Server hiding step

/-- The message that a worker at this position has made. -/
def carries : WorkerPc → Option (List UInt8)
  | .guard data => data
  | .loop data _ | .fetch data _ | .send data _ _ => some data
  | _ => none

/-- The clock reads what Qt prints as a text that it reads back. -/
def Printed (qt : Qt) : Turn → Prop
  | .worker _ input => Relay.Prints qt input.duration
  | _ => True

def Payload (qt : Qt) (data : List UInt8) : Prop := ∃ duration, Relay.Prints qt duration ∧ data = payload qt duration

/-- The call has a socket of a subscribe, or the null pointer that zmq_socket returned to one. -/
def Addressed (z : Zmq) (sock : VoidPtr) : Prop := sock = .null ∨ z.Created .ZMQ_PUSH sock

structure Genuine (qt : Qt) (s : State) : Prop where
  carried : ∀ w ∈ s.process.workers, ∀ data, carries w.pc = some data → Payload qt data
  sent : ∀ send ∈ s.process.zmq.sends, Addressed s.process.zmq send.socket ∧ Payload qt send.data

section
variable {qt : Qt} {s s' : State} {turn : Turn}

theorem works_carries {p p' : Process} {input : Input} {w w' : Worker} (prints : Relay.Prints qt input.duration)
    (works : Works p qt input w w' p') (carried : ∀ data, carries w.pc = some data → Payload qt data) :
    ∀ data, carries w'.pc = some data → Payload qt data := by
  intro data carrying
  cases works with
  | handle pc =>
    cases carrying
    exact ⟨input.duration,prints,rfl⟩
  | enter pc _ | pass pc _ | leave pc _ | fetch pc _ | send pc =>
    cases carrying <;> exact carried _ (by rw [pc]; rfl)
  | test pc =>
    dsimp only at carrying
    split at carrying <;> cases carrying
  | _ => cases carrying

theorem step_carried (carried : ∀ w ∈ s.process.workers, ∀ data, carries w.pc = some data → Payload qt data)
    (printed : Printed qt turn) (taken : step qt s turn = some s') :
    ∀ w ∈ s'.process.workers, ∀ data, carries w.pc = some data → Payload qt data := by
  cases step_operation taken with
  | config | start =>
    rw [ensureHandler_workers]
    exact carried
  | duplicate | subscribe _ | stop | subscribePush | subscribeSocket | subscribeStore | subscribeBind | startFlag
  | stopPass _ | stopLeave _ | stopRead _ | stopClose | stopClear | stopForget => exact carried
  | startThread =>
    intro w member data carrying
    rcases List.mem_append.mp member with old | new
    · exact carried w old data carrying
    · rw [List.mem_singleton.mp new] at carrying
      cases carrying
  | worker there works =>
    intro v member data carrying
    have same := congrArg Process.workers (Quiescent.works_frame works).1
    simp only [setWorker,same] at member
    rcases List.mem_or_eq_of_mem_set member with old | rfl
    · exact carried v old data carrying
    · exact works_carries printed works (carried _ (List.mem_of_getElem? there)) data carrying

/-- What a call of zmq_msg_send is made with. -/
theorem calls_genuine (pointers : Races.Pointers s) (genuine : Genuine qt s) {call : Nat × Send}
    (member : call ∈ calls s turn) : Addressed s.process.zmq call.2.socket ∧ Payload qt call.2.data := by
  obtain ⟨w,i,there,pc⟩ := calls_sending member
  have listed := List.mem_of_getElem? there
  refine ⟨?_,genuine.carried w listed _ (by rw [pc]; rfl)⟩
  by_cases null : call.2.socket = .null
  · exact .inl null
  · exact .inr (pointers.pushes _ (.inr (.inr ⟨w,listed,_,i,pc⟩)) null)

theorem step_genuine (pointers : Races.Pointers s) (genuine : Genuine qt s) (printed : Printed qt turn)
    (taken : step qt s turn = some s') : Genuine qt s' := by
  refine ⟨step_carried genuine.carried printed taken,?_⟩
  have kept : ∀ {sock}, Addressed s.process.zmq sock → Addressed s'.process.zmq sock := fun addressed =>
    addressed.imp_right (Races.created_after (step_effect taken))
  intro send member
  rw [step_sends taken] at member
  rcases List.mem_append.mp member with old | new
  · obtain ⟨addressed,made⟩ := genuine.sent send old
    exact ⟨kept addressed,made⟩
  · obtain ⟨call,called,rfl⟩ := List.mem_map.mp new
    obtain ⟨addressed,made⟩ := calls_genuine pointers genuine called
    exact ⟨kept addressed,made⟩

end

/-- In every interleaving, every call of zmq_msg_send has the null pointer or a PUSH socket, and a consumer
    reads an object from its message that has no key but node_check_end, whatever frames the
    workers receive. -/
theorem messages_bare (qt : Qt) (m_handler : Nat) (addr : { a : Nat // 0 < a }) (turns : List Turn) (s : State)
    (printed : ∀ turn ∈ turns, Printed qt turn)
    (executed : run (step qt) (whole (construct m_handler addr)) turns = some s)
    (send : Send) (member : send ∈ s.process.zmq.sends) :
    Addressed s.process.zmq send.socket ∧ ∃ out, Relay.consume qt send.data = some out ∧ Relay.AgreeOutside [] out := by
  have kept : ∀ s turn s', Races.Pointers s ∧ Genuine qt s → Printed qt turn → step qt s turn = some s' →
      Races.Pointers s' ∧ Genuine qt s' := by
    rintro s turn s' ⟨pointers,genuine⟩ printed taken
    exact ⟨Races.step_pointers pointers (step_effect taken),step_genuine pointers genuine printed taken⟩
  obtain ⟨-,genuine⟩ := run_invariant kept
    ⟨(Races.construct_pointers m_handler addr).1,show Genuine qt _ from ⟨nofun,nofun⟩⟩
    (meets_of_forall (fun turn member _ => printed turn member) _) executed
  obtain ⟨addressed,duration,prints,made⟩ := genuine.sent send member
  rw [made]
  exact ⟨addressed,Relay.consume_payload prints⟩

/-- A subscriber, a worker, and the operations of the worker until its first message is sent. -/
def untilSent : List Turn := Races.untilFetch ++ List.replicate 2 (.worker 0 (.granted none))

theorem messages_bare_first : ∃ s send out,
    run (step Relay.jsonTable) (whole (construct 0 ⟨1,Nat.one_pos⟩)) untilSent = some s ∧ s.process.zmq.sends = [send] ∧
    Relay.consume Relay.jsonTable send.data = some out ∧ Relay.AgreeOutside [] out := by
  have printed : ∀ turn ∈ untilSent, Printed Relay.jsonTable turn := by
    intro turn member
    cases turn with
    | command c answers | advance answers => trivial
    | worker k input =>
      have duration : input.duration = 0 := by
        simp [untilSent,Races.untilFetch,Input.granted] at member
        rcases member with ⟨-,rfl⟩ | ⟨-,rfl⟩ <;> rfl
      rw [Printed,duration]
      exact Relay.jsonTable_prints
  obtain ⟨-,out,consumed,bare⟩ := messages_bare Relay.jsonTable 0 ⟨1,Nat.one_pos⟩ untilSent _ printed rfl _
    (List.mem_singleton_self _)
  exact ⟨_,_,out,rfl,rfl,consumed,bare⟩

end ZmqOut.Messages
