import ZmqOut.Runs
import ZmqOut.Steps

/-!
The two vectors of the server and the sockets of ZeroMQ: an invariant of every
run, whatever the comparison past the end yields and whether or not sockets can
be created, and what it says when they can.
-/
namespace ZmqOut.Registry
open ZmqOut.Runs ZmqOut.Variant ZmqOut.Sockets ZmqOut.Server ZmqOut.Steps

structure InStep (p : Process) : Prop where
  aligned : p.server.subscribers.length = p.server.subscribers_sockets.length
  distinct : p.server.subscribers.Nodup
  single : ∀ k, p.server.subscribers_sockets.count (.socket k) ≤ 1
  unclosed : ∀ s ∈ p.server.subscribers_sockets, s ≠ .null → p.zmq.Created .ZMQ_PUSH s ∧ s ∉ p.zmq.closes
  complete : ∀ s, p.zmq.Created .ZMQ_PUSH s → s ∈ p.server.subscribers_sockets ∨ s ∈ p.zmq.closes
  once : ∀ s, p.zmq.Created .ZMQ_PUSH s → p.zmq.closes.count s ≤ 1
  pulls : ∀ s ∈ p.workers.map Worker.pull, s ≠ .null → p.zmq.Created .ZMQ_PULL s
  known : ∀ k, .socket k ∈ p.zmq.closes → k < p.zmq.created.length

theorem construct_inStep (m_handler : Nat) (addr : { a : Nat // 0 < a }) : InStep (construct m_handler addr) := by
  refine ⟨rfl,List.nodup_nil,?_,?_,?_,?_,?_,?_⟩
  · intro k; exact Nat.zero_le 1
  · intro s member; cases member
  · rintro s ⟨k,entry,-,at_k,-⟩; simp [construct,Zmq.zmq_init] at at_k
  · intro s _; exact Nat.zero_le 1
  · intro s member; cases member
  · intro k member; cases member

/-- The invariant looks at the vectors, the sockets and the pull sockets alone. -/
theorem inStep_frame {p p' : Process} (inv : InStep p)
    (subscribers : p'.server.subscribers = p.server.subscribers)
    (sockets : p'.server.subscribers_sockets = p.server.subscribers_sockets)
    (created : p'.zmq.created = p.zmq.created) (closes : p'.zmq.closes = p.zmq.closes)
    (pulls : p'.workers.map Worker.pull = p.workers.map Worker.pull) : InStep p' := by
  obtain ⟨aligned,distinct,single,unclosed,complete,once,pullsCreated,known⟩ := inv
  refine ⟨?_,?_,?_,?_,?_,?_,?_,?_⟩
  · rw [subscribers,sockets]; exact aligned
  · rw [subscribers]; exact distinct
  · rw [sockets]; exact single
  · simp only [sockets,closes,Zmq.created_congr created]; exact unclosed
  · simp only [sockets,closes,Zmq.created_congr created]; exact complete
  · simp only [closes,Zmq.created_congr created]; exact once
  · simp only [pulls,Zmq.created_congr created]; exact pullsCreated
  · rw [closes,created]; exact known

theorem new_socket_unused {p : Process} (inv : InStep p) :
    .socket p.zmq.created.length ∉ p.server.subscribers_sockets ∧ .socket p.zmq.created.length ∉ p.zmq.closes := by
  constructor
  · intro member
    exact Nat.lt_irrefl _ (Zmq.created_lt (inv.unclosed _ member (by simp)).1)
  · intro closed
    exact Nat.lt_irrefl _ (inv.known _ closed)

theorem register_inStep {p : Process} {endpoint : StdString} {answers : Answers} (inv : InStep p)
    (fresh : endpoint ∉ p.server.subscribers) : InStep (p.register endpoint answers) := by
  obtain ⟨unlisted,unclosed⟩ := new_socket_unused inv
  rw [register_eq]
  refine ⟨?_,?_,?_,?_,?_,?_,?_,?_⟩
  · simp [inv.aligned]
  · simpa [List.nodup_append] using ⟨inv.distinct,fun e member same => fresh (same ▸ member)⟩
  · intro k
    rw [List.count_append]
    by_cases new : newSocket answers p = .socket k
    · have other : VoidPtr.socket k ∉ p.server.subscribers_sockets := by
        unfold newSocket at new
        split at new
        · cases new; exact unlisted
        · cases new
      simp [new,List.count_eq_zero_of_not_mem other]
    · simpa [new] using inv.single k
  · intro s member nonnull
    rw [Zmq.created_congr (Zmq.zmq_bind_created ..),Zmq.zmq_bind_closes,Zmq.zmq_socket_closes]
    rcases List.mem_append.mp member with old | new
    · obtain ⟨created,unclosed⟩ := inv.unclosed s old nonnull
      exact ⟨Zmq.created_kept created,unclosed⟩
    · rw [List.mem_singleton.mp new] at nonnull ⊢
      have succeeds := newSocket_ne_null.mp nonnull
      rw [newSocket,if_pos succeeds]
      exact ⟨Zmq.created_socket.mpr (.inr ⟨succeeds,rfl,rfl⟩),unclosed⟩
  · intro s created
    rw [Zmq.created_congr (Zmq.zmq_bind_created ..)] at created
    rw [Zmq.zmq_bind_closes,Zmq.zmq_socket_closes]
    rcases Zmq.created_socket.mp created with old | ⟨succeeds,-,rfl⟩
    · rcases inv.complete s old with listed | closed
      · exact .inl (List.mem_append_left _ listed)
      · exact .inr closed
    · exact .inl (by simp [newSocket,succeeds])
  · intro s created
    rw [Zmq.created_congr (Zmq.zmq_bind_created ..)] at created
    rw [Zmq.zmq_bind_closes,Zmq.zmq_socket_closes]
    rcases Zmq.created_socket.mp created with old | ⟨-,-,rfl⟩
    · exact inv.once s old
    · simp [List.count_eq_zero_of_not_mem unclosed]
  · intro s member nonnull
    rw [Zmq.created_congr (Zmq.zmq_bind_created ..)]
    exact Zmq.created_kept (inv.pulls s member nonnull)
  · intro k closed
    rw [Zmq.zmq_bind_closes,Zmq.zmq_socket_closes] at closed
    rw [Zmq.zmq_bind_created,Zmq.zmq_socket_created,List.length_append]
    exact Nat.lt_add_right _ (inv.known k closed)

theorem stop_inStep {p : Process} (inv : InStep p) : InStep p.stop := by
  unfold Process.stop
  rw [closeLoop_eq]
  refine ⟨rfl,List.nodup_nil,?_,?_,?_,?_,inv.pulls,?_⟩
  · intro k; exact Nat.zero_le 1
  · intro s member; cases member
  · intro s created
    rcases inv.complete s created with listed | closed
    · exact .inr (List.mem_append_right _ listed)
    · exact .inr (List.mem_append_left _ closed)
  · intro s created
    have created' : p.zmq.Created .ZMQ_PUSH s := created
    change (p.zmq.closes ++ p.server.subscribers_sockets).count s ≤ 1
    rw [List.count_append]
    by_cases listed : s ∈ p.server.subscribers_sockets
    · obtain ⟨k,-,rfl,-,-⟩ := created
      have unclosed := (inv.unclosed _ listed (by simp)).2
      have single := inv.single k
      rw [List.count_eq_zero_of_not_mem unclosed]
      omega
    · rw [List.count_eq_zero_of_not_mem listed]
      exact inv.once s created'
  · intro k closed
    rcases List.mem_append.mp closed with old | listed
    · exact inv.known k old
    · exact Zmq.created_lt (inv.unclosed _ listed (by simp)).1

theorem start_inStep {qt : Qt} {m : QVariantMap} {answers : Answers} {p : Process} (inv : InStep p) :
    InStep (p.start qt m answers) := by
  have pulls : (p.start qt m answers).workers.map Worker.pull = p.workers.map Worker.pull ++ [.null] := by
    simp [start_workers,newWorker]
  obtain ⟨aligned,distinct,single,unclosed,complete,once,pullsCreated,known⟩ := inv
  refine ⟨?_,?_,?_,?_,?_,?_,?_,?_⟩
  case refine_7 =>
    intro s member nonnull
    rw [pulls] at member
    rcases List.mem_append.mp member with old | new
    · simpa [Process.start] using pullsCreated s old nonnull
    · exact absurd (List.mem_singleton.mp new) nonnull
  all_goals simp only [Process.start,ensureHandler_subscribers,ensureHandler_sockets,ensureHandler_zmq]
  all_goals assumption

theorem openPull_inStep {p : Process} {k : Nat} {answer : Bool} {w : Worker} {pc : WorkerPc} (inv : InStep p) :
    InStep (setWorker k { w with pc := pc,pull := (p.zmq.zmq_socket w.context .ZMQ_PULL answer).1 }
      { p with zmq := (p.zmq.zmq_socket w.context .ZMQ_PULL answer).2 }) := by
  have pushes : ∀ s, (p.zmq.zmq_socket w.context .ZMQ_PULL answer).2.Created .ZMQ_PUSH s ↔
      p.zmq.Created .ZMQ_PUSH s := by
    intro s
    simp [Zmq.created_socket]
  refine ⟨inv.aligned,inv.distinct,inv.single,?_,?_,?_,?_,?_⟩
  all_goals simp only [setWorker,pushes,Zmq.zmq_socket_closes]
  · exact inv.unclosed
  · exact inv.complete
  · exact inv.once
  · intro s member nonnull
    rw [List.map_set] at member
    rcases List.mem_or_eq_of_mem_set member with old | new
    · exact Zmq.created_kept (inv.pulls s old nonnull)
    · subst new
      exact Zmq.created_returned nonnull
  · intro j closed
    rw [Zmq.zmq_socket_created,List.length_append]
    exact Nat.lt_add_right _ (inv.known j closed)

/-- Closing what is no PUSH socket leaves the registry alone. -/
theorem close_other_inStep {p : Process} {s : VoidPtr} (inv : InStep p)
    (other : ∀ t, p.zmq.Created .ZMQ_PUSH t → t ≠ s) (known : ∀ k, s = .socket k → k < p.zmq.created.length) :
    InStep { p with zmq := p.zmq.zmq_close s } := by
  refine ⟨inv.aligned,inv.distinct,inv.single,?_,?_,?_,inv.pulls,?_⟩
  all_goals simp only [Zmq.created_congr (Zmq.zmq_close_created ..),Zmq.zmq_close_closes,Zmq.zmq_close_created]
  · intro t listed nonnull
    obtain ⟨created,unclosed⟩ := inv.unclosed t listed nonnull
    exact ⟨created,by simp [unclosed,other t created]⟩
  · intro t created
    rcases inv.complete t created with listed | closed
    · exact .inl listed
    · exact .inr (List.mem_append_left _ closed)
  · intro t created
    rw [List.count_append,List.count_singleton,beq_false_of_ne (other t created).symm]
    exact inv.once t created
  · intro k closed
    rcases List.mem_append.mp closed with old | new
    · exact inv.known k old
    · exact known k (List.mem_singleton.mp new).symm

theorem closePull_inStep {p : Process} {k : Nat} {w : Worker} {pc : WorkerPc} (inv : InStep p)
    (there : p.workers[k]? = some w) :
    InStep (setWorker k { w with pc := pc } { p with zmq := p.zmq.zmq_close w.pull }) := by
  have pull : w.pull ≠ .null → p.zmq.Created .ZMQ_PULL w.pull := by
    obtain ⟨inside,here⟩ := List.getElem?_eq_some_iff.mp there
    exact inv.pulls w.pull (List.mem_map.mpr ⟨w,here ▸ List.getElem_mem inside,rfl⟩)
  -- A pull socket is none of the sockets of the registry.
  have other : ∀ s, p.zmq.Created .ZMQ_PUSH s → s ≠ w.pull := by
    rintro s created rfl
    have nonnull : w.pull ≠ .null := by
      obtain ⟨j,-,same,-⟩ := created
      simp [same]
    cases Zmq.created_type created (pull nonnull)
  have known : ∀ j, w.pull = .socket j → j < p.zmq.created.length := by
    intro j same
    have created := pull (by simp [same])
    rw [same] at created
    exact Zmq.created_lt created
  exact inStep_frame (close_other_inStep inv other known) rfl rfl rfl rfl (map_set_same there rfl)

theorem step_inStep {qt : Qt} {p p' : Process} {event : Event} (inv : InStep p)
    (taken : step qt p event = some p') : InStep p' := by
  cases step_cases taken with
  | config _ => exact inStep_frame inv (by simp) (by simp) (by simp) (by simp) (by simp)
  | duplicate _ _ => exact inv
  | register fresh _ => exact register_inStep inv fresh
  | start => exact start_inStep inv
  | stop => exact stop_inStep inv
  | openPull _ _ => exact openPull_inStep inv
  | connect there _ | options there _ | test there _ | timeout there _ | receive there _
  | closeHandler there _ _ => exact inStep_frame inv rfl rfl rfl rfl (map_set_same there rfl)
  | handle there _ _ _ =>
    exact inStep_frame inv rfl rfl (sendLoop_created ..) (sendLoop_closes ..) (map_set_same there rfl)
  | closePull there _ => exact closePull_inStep inv there

theorem run_inStep {qt : Qt} {p p' : Process} {events : List Event} (inv : InStep p)
    (executed : run (step qt) p events = some p') : InStep p' :=
  run_preserved (fun _ _ _ inv taken => step_inStep inv taken) inv executed

/-- No socket is forgotten. -/
theorem step_created_le {qt : Qt} {p p' : Process} {event : Event} (taken : step qt p event = some p') :
    p.zmq.created.length ≤ p'.zmq.created.length := by
  cases step_cases taken with
  | config _ => rw [ensureHandler_zmq]
  | register _ _ => simp [register_eq,Zmq.zmq_socket_created]
  | start => simp [Process.start]
  | stop => simp
  | openPull _ _ => simp [setWorker,Zmq.zmq_socket_created]
  | handle _ _ _ _ => simp [setWorker]
  | duplicate _ _ | connect _ _ | options _ _ | test _ _ | timeout _ _ | receive _ _ | closePull _ _
  | closeHandler _ _ _ => exact Nat.le_refl _

/-! ### Runs in which every socket can be created -/

/-- zmq_socket returns a socket to this event, if it is called by a subscribe. -/
def SocketReturned : Event → Prop
  | .command (.subscribe _) answers => answers.socket = true
  | _ => True

/-- The endpoint of a subscribe with the PUSH socket that it creates. -/
def createdFor (qt : Qt) (p : Process) : Event → List (StdString × VoidPtr)
  | .command (.subscribe m) answers =>
    if (p.subscribe qt m answers).zmq.created.length = p.zmq.created.length then []
    else [(Process.endpointOf qt m,.socket p.zmq.created.length)]
  | _ => []

/-- No pointer of the vector is null and each stands beside the endpoint that
    its socket was created for. -/
def Beside (seen : List (StdString × VoidPtr)) (p : Process) : Prop :=
  InStep p ∧ .null ∉ p.server.subscribers_sockets ∧
    ∀ pair ∈ p.server.subscribers.zip p.server.subscribers_sockets, pair ∈ seen

theorem step_beside {qt : Qt} {seen : List (StdString × VoidPtr)} {p p' : Process} {event : Event}
    (beside : Beside seen p) (returned : SocketReturned event) (taken : step qt p event = some p') :
    Beside (seen ++ createdFor qt p event) p' := by
  obtain ⟨inv,nonnull,pairs⟩ := beside
  refine ⟨step_inStep inv taken,?_⟩
  have grown : ∀ pair ∈ p.server.subscribers.zip p.server.subscribers_sockets, pair ∈ seen ++ createdFor qt p event :=
    fun pair member => List.mem_append_left _ (pairs pair member)
  cases step_cases taken with
  | config _ | start =>
    simp only [Process.start,ensureHandler_subscribers,ensureHandler_sockets]
    exact ⟨nonnull,grown⟩
  | @register m answers fresh registers =>
    have succeeds : answers.socket = true := returned
    have new : createdFor qt p (.command (.subscribe m) answers) =
        [(Process.endpointOf qt m,.socket p.zmq.created.length)] := by
      simp [createdFor,registers,register_eq,Zmq.zmq_socket_created,succeeds]
    rw [new] at grown ⊢
    simp only [register_eq,newSocket,succeeds,↓reduceIte]
    refine ⟨by simp [nonnull],?_⟩
    rw [List.zip_append inv.aligned]
    intro pair member
    rcases List.mem_append.mp member with old | last
    · exact grown pair old
    · exact List.mem_append_right _ last
  | stop => exact ⟨List.not_mem_nil,fun pair member => by cases member⟩
  | _ => exact ⟨nonnull,grown⟩

/-- In every state of every run, whatever the comparison past the end yields, the
    two vectors have one entry per subscription, the socket beside an endpoint is
    the one created for it, the open PUSH sockets are exactly the entries of the
    vector, once each, and no PUSH socket is passed to zmq_close twice. -/
theorem registry_in_step (qt : Qt) (m_handler : Nat) (addr : { a : Nat // 0 < a }) (events : List Event) (p : Process)
    (returned : ∀ event ∈ events, SocketReturned event)
    (executed : run (step qt) (construct m_handler addr) events = some p) :
    p.server.subscribers.length = p.server.subscribers_sockets.length ∧
      p.server.subscribers.Nodup ∧
      (∀ (i : Nat) (e : StdString) (s : VoidPtr), p.server.subscribers[i]? = some e → p.server.subscribers_sockets[i]? = some s →
        p.zmq.Created .ZMQ_PUSH s ∧ (e,s) ∈ trace (step qt) (createdFor qt) (construct m_handler addr) events) ∧
      (∀ s, p.zmq.Created .ZMQ_PUSH s → ¬ p.zmq.Closed s → p.server.subscribers_sockets.count s = 1) ∧
      (∀ s ∈ p.server.subscribers_sockets, ¬ p.zmq.Closed s) ∧
      (∀ s, p.zmq.Created .ZMQ_PUSH s → p.zmq.closes.count s ≤ 1) := by
  have start : Beside [] (construct m_handler addr) :=
    ⟨construct_inStep m_handler addr,List.not_mem_nil,fun pair member => by cases member⟩
  have advance : ∀ seen p event p', Beside seen p → SocketReturned event → step qt p event = some p' →
      Beside (seen ++ createdFor qt p event) p' := fun _ _ _ _ => step_beside
  have beside : Beside ([] ++ trace (step qt) (createdFor qt) (construct m_handler addr) events) p :=
    run_history advance [] start (meets_of_forall (fun event member _ => returned event member) _) executed
  obtain ⟨inv,nonnull,pairs⟩ := beside
  have filled : ∀ s ∈ p.server.subscribers_sockets, s ≠ .null := fun s member null => nonnull (null ▸ member)
  refine ⟨inv.aligned,inv.distinct,?_,?_,?_,inv.once⟩
  · intro i e s at_e at_s
    have listed := List.mem_of_getElem? at_s
    refine ⟨(inv.unclosed s listed (filled s listed)).1,pairs (e,s) ?_⟩
    exact List.mem_of_getElem? (List.getElem?_zip_eq_some.mpr ⟨at_e,at_s⟩)
  · intro s created unclosed
    obtain ⟨k,-,rfl,-⟩ := id created
    rcases inv.complete _ created with listed | closed
    · have single := inv.single k
      have present := List.count_pos_iff.mpr listed
      omega
    · exact absurd ⟨by simp,closed⟩ unclosed
  · intro s listed closed
    exact (inv.unclosed s listed (filled s listed)).2 closed.2

def subscribeTo (endpoint : String) : Event :=
  .command (.subscribe [(key "endpoint",.string (key endpoint))]) .granted

/-- Two endpoints, one of them twice, a stop and the first endpoint again. -/
theorem registry_in_step_resubscribed : ∃ p,
    run (step (.table [])) (construct 0 ⟨1,Nat.one_pos⟩)
      [subscribeTo "tcp://*:1",subscribeTo "tcp://*:2",subscribeTo "tcp://*:1",.command .stop .granted,
        subscribeTo "tcp://*:1"] = some p ∧
    p.server.subscribers = [literal "tcp://*:1"] ∧ p.server.subscribers_sockets.count (.socket 2) = 1 := by
  refine ⟨_,rfl,by decide,?_⟩
  have every := registry_in_step (.table []) 0 ⟨1,Nat.one_pos⟩
    [subscribeTo "tcp://*:1",subscribeTo "tcp://*:2",subscribeTo "tcp://*:1",.command .stop .granted,
      subscribeTo "tcp://*:1"] _ (by simp [subscribeTo,SocketReturned,Answers.granted]) rfl
  exact every.2.2.2.1 (.socket 2) ⟨2,_,rfl,rfl,rfl⟩ (by rintro ⟨-,closed⟩; revert closed; decide)

end ZmqOut.Registry
