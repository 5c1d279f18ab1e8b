import ZmqOut.Truth

/-!
What one subscribe does to the registry. Its test for a registered endpoint
compares through the iterator that find returns even when that is past the end,
and what it records it records before it knows whether the calls succeed.
-/
namespace ZmqOut.Subscribing
open ZmqOut.Runs ZmqOut.Variant ZmqOut.Sockets ZmqOut.Server ZmqOut.Steps ZmqOut.Registry ZmqOut.Truth

/-! ### Which endpoints are registered -/

/-- If the comparison *it == endpoint is made, the iterator points to an element. -/
def DerefsElement (p : Process) (endpoint : StdString) : Prop :=
  p.server.subscribers.length > 0 → Process.find p.server.subscribers endpoint < p.server.subscribers.length

/-- The endpoint and one new PUSH socket stand behind those that were there. -/
structure Registered (p p' : Process) (endpoint : StdString) : Prop where
  subscribers : p'.server.subscribers = p.server.subscribers ++ [endpoint]
  sockets : p'.server.subscribers_sockets = p.server.subscribers_sockets ++ [.socket p.zmq.created.length]
  created : p'.zmq.created = p.zmq.created ++ [⟨.ZMQ_PUSH,p.server.push_context⟩]

/-- Both vectors are as they were. -/
def SameRegistry (p p' : Process) : Prop :=
  p'.server.subscribers = p.server.subscribers ∧ p'.server.subscribers_sockets = p.server.subscribers_sockets

/-- A subscribe looks at elements only and registers exactly the endpoints that are not
    registered. -/
def Deduplicates (qt : Qt) (p : Process) : Event → Prop
  | .command (.subscribe m) answers =>
    DerefsElement p (Process.endpointOf qt m) ∧
      (Registered p (p.subscribe qt m answers) (Process.endpointOf qt m) ↔
        Process.endpointOf qt m ∉ p.server.subscribers) ∧
      (Process.endpointOf qt m ∈ p.server.subscribers → SameRegistry p (p.subscribe qt m answers))
  | _ => True

/-- The endpoint of a subscribe is registered, or none is and its socket can be created. -/
def Decided (qt : Qt) (p : Process) : Event → Prop
  | .command (.subscribe m) answers =>
    Process.endpointOf qt m ∈ p.server.subscribers ∨ p.server.subscribers = [] ∧ answers.socket = true
  | _ => True

theorem derefsElement_iff {p : Process} {endpoint : StdString} :
    DerefsElement p endpoint ↔ p.server.subscribers = [] ∨ endpoint ∈ p.server.subscribers := by
  unfold DerefsElement Process.find
  rw [List.findIdx_lt_length,gt_iff_lt,List.length_pos_iff,Decidable.imp_iff_not_or,not_not]
  simp

theorem registered_register {p : Process} {endpoint : StdString} {answers : Answers} :
    Registered p (p.register endpoint answers) endpoint ↔ answers.socket = true := by
  constructor
  · rintro ⟨-,sockets,-⟩
    refine newSocket_ne_null (p := p).mp ?_
    rw [register_eq] at sockets
    rw [List.singleton_inj.mp (List.append_cancel_left sockets)]
    simp
  · intro returned
    refine ⟨by rw [register_eq],?_,?_⟩
    · rw [register_eq,newSocket,if_pos returned]
    · simp [register_eq,Zmq.zmq_socket_created,returned]

theorem not_registered_same (p : Process) (endpoint : StdString) : ¬ Registered p p endpoint := by
  intro registered
  have longer := congrArg List.length registered.subscribers
  simp at longer

theorem deduplicates_iff (qt : Qt) (p : Process) (event : Event) : Deduplicates qt p event ↔ Decided qt p event := by
  cases event with
  | worker k input => exact Iff.rfl
  | command c answers =>
    cases c with
    | config m | start m | stop => exact Iff.rfl
    | subscribe m =>
      simp only [Deduplicates,Decided,derefsElement_iff]
      by_cases member : Process.endpointOf qt m ∈ p.server.subscribers
      · have same : p.subscribe qt m answers = p := by
          rw [subscribe_eq,if_pos ⟨List.ne_nil_of_mem member,.inl member⟩]
        simp [same,member,not_registered_same,SameRegistry]
      · by_cases empty : p.server.subscribers = []
        · have registers : p.subscribe qt m answers = p.register (Process.endpointOf qt m) answers := by
            rw [subscribe_eq,if_neg (fun again => again.1 empty)]
          simp [registers,registered_register,empty]
        · simp [member,empty]

/-- Every subscribe of a run compares elements only and registers exactly the endpoints
    that are not registered if and only if each one's endpoint is registered, or it is the
    first one since the last stop and its socket can be created. -/
theorem deduplicates_run_iff (qt : Qt) (m_handler : Nat) (addr : { a : Nat // 0 < a }) (events : List Event) :
    Meets (step qt) (Deduplicates qt) (construct m_handler addr) events ↔
      Meets (step qt) (Decided qt) (construct m_handler addr) events :=
  meets_congr (deduplicates_iff qt)

/-- The second endpoint is compared with what lies past the end of the vector. -/
theorem second_past_end : ∃ p,
    run (step (.table [])) (construct 0 ⟨1,Nat.one_pos⟩) [subscribeTo "tcp://*:1"] = some p ∧
    Process.find p.server.subscribers (literal "tcp://*:2") = p.server.subscribers.length ∧
    ¬ Deduplicates (.table []) p (subscribeTo "tcp://*:2") := by
  refine ⟨_,rfl,by decide,?_⟩
  rintro ⟨derefs,-⟩
  exact absurd (derefs (by decide)) (by decide)

/-! ### Subscribes that fail -/

/-- A socket that has been created and not been closed. -/
def Open (z : Zmq) (s : VoidPtr) : Prop := (∃ type, z.Created type s) ∧ ¬ z.Closed s

/-- A subscribe of an endpoint that is not registered, if one of its calls fails, leaves the
    registry and the open sockets as they were. -/
def Atomic (qt : Qt) (p : Process) : Event → Prop
  | .command (.subscribe m) answers =>
    Process.endpointOf qt m ∉ p.server.subscribers → ¬ (answers.socket = true ∧ answers.bind = true) →
      SameRegistry p (p.subscribe qt m answers) ∧ ∀ s, Open (p.subscribe qt m answers).zmq s ↔ Open p.zmq s
  | _ => True

/-- The calls of a subscribe that goes on to register succeed. -/
def CallsSucceed (qt : Qt) (p : Process) : Event → Prop
  | .command (.subscribe m) answers =>
    Process.endpointOf qt m ∉ p.server.subscribers → p.server.subscribers = [] ∨ answers.pastEnd = false →
      answers.socket = true ∧ answers.bind = true
  | _ => True

/-- Every entry of the vector is a socket that is bound to the endpoint beside it. -/
def AllBound (p : Process) : Prop :=
  ∀ (i : Nat) (s : VoidPtr), p.server.subscribers_sockets[i]? = some s →
    s ≠ .null ∧ ∃ e, p.server.subscribers[i]? = some e ∧ p.zmq.Bound s e

/-- What subscribe does with an endpoint that is not registered. -/
theorem subscribe_fresh {qt : Qt} {m : QVariantMap} {p : Process} (answers : Answers)
    (fresh : Process.endpointOf qt m ∉ p.server.subscribers) :
    (p.server.subscribers = [] ∨ answers.pastEnd = false) ∧
        p.subscribe qt m answers = p.register (Process.endpointOf qt m) answers ∨
      ¬ (p.server.subscribers = [] ∨ answers.pastEnd = false) ∧ p.subscribe qt m answers = p := by
  rw [subscribe_eq]
  by_cases registers : p.server.subscribers = [] ∨ answers.pastEnd = false
  · refine .inl ⟨registers,if_neg ?_⟩
    rintro ⟨nonempty,member | stands⟩
    · exact fresh member
    · rcases registers with empty | differs
      · exact nonempty empty
      · rw [differs] at stands
        cases stands
  · obtain ⟨nonempty,stands⟩ := not_or.mp registers
    exact .inr ⟨registers,if_pos ⟨nonempty,.inr (by simpa using stands)⟩⟩

theorem atomic_iff (qt : Qt) (p : Process) (event : Event) : Atomic qt p event ↔ CallsSucceed qt p event := by
  cases event with
  | worker k input => exact Iff.rfl
  | command c answers =>
    cases c with
    | config m | start m | stop => exact Iff.rfl
    | subscribe m =>
      constructor
      · intro atomic fresh undecided
        by_contra fails
        rcases subscribe_fresh answers fresh with ⟨-,registers⟩ | ⟨passes,-⟩
        · have same := (atomic fresh fails).1.1
          rw [registers,register_eq] at same
          have longer := congrArg List.length same
          simp at longer
        · exact passes undecided
      · intro succeed fresh fails
        rcases subscribe_fresh answers fresh with ⟨undecided,-⟩ | ⟨-,same⟩
        · exact absurd (succeed fresh undecided) fails
        · rw [same]
          exact ⟨⟨rfl,rfl⟩,fun _ => Iff.rfl⟩

theorem allBound_frame {p p' : Process} (bound : AllBound p) (subscribers : p'.server.subscribers = p.server.subscribers)
    (sockets : p'.server.subscribers_sockets = p.server.subscribers_sockets) (binds : p'.zmq.binds = p.zmq.binds) :
    AllBound p' := by
  simp only [AllBound,Zmq.Bound,subscribers,sockets,binds]
  exact bound

theorem register_allBound {p : Process} {endpoint : StdString} {answers : Answers} (inv : InStep p)
    (bound : AllBound p) (returned : answers.socket = true) (bind : answers.bind = true) :
    AllBound (p.register endpoint answers) := by
  have nonnull := newSocket_ne_null (p := p).mpr returned
  have subscribers : (p.register endpoint answers).server.subscribers = p.server.subscribers ++ [endpoint] := by
    rw [register_eq]
  intro i s at_s
  rw [register_eq] at at_s
  simp only [Zmq.Bound,register_binds,subscribers]
  by_cases old : i < p.server.subscribers_sockets.length
  · rw [List.getElem?_append_left old] at at_s
    obtain ⟨filled,e,at_e,before⟩ := bound i s at_s
    refine ⟨filled,e,?_,List.mem_append_left _ before⟩
    rw [List.getElem?_append_left (inv.aligned ▸ old)]
    exact at_e
  · have inside := (List.getElem?_eq_some_iff.mp at_s).1
    have last : i = p.server.subscribers_sockets.length := by
      rw [List.length_append,List.length_singleton] at inside
      omega
    subst last
    have new : newSocket answers p = s := by simpa using at_s
    subst new
    exact ⟨nonnull,endpoint,by rw [← inv.aligned]; simp,by simp [bind,nonnull]⟩

/-- A registration with a call that fails leaves an entry that is not bound. -/
theorem register_unbound {p : Process} {endpoint : StdString} {answers : Answers} (inv : InStep p)
    (created : BindsCreated p) (fresh : endpoint ∉ p.server.subscribers)
    (fails : ¬ (answers.socket = true ∧ answers.bind = true)) : ¬ AllBound (p.register endpoint answers) := by
  intro bound
  have at_s : (p.register endpoint answers).server.subscribers_sockets[p.server.subscribers.length]? =
      some (newSocket answers p) := by simp [register_eq,inv.aligned]
  obtain ⟨-,e,at_e,here⟩ := bound _ _ at_s
  have last : endpoint = e := by simpa [register_eq] using at_e
  subst last
  exact fails ((register_serves inv created fresh).mp ⟨_,_,at_e,at_s,here⟩)

theorem step_allBound {qt : Qt} {p p' : Process} {event : Event} (inv : InStep p) (bound : AllBound p)
    (succeed : CallsSucceed qt p event) (taken : step qt p event = some p') : AllBound p' := by
  cases step_cases taken with
  | config _ => exact allBound_frame bound (by simp) (by simp) (by simp)
  | duplicate _ _ => exact bound
  | @register m answers fresh registers =>
    rcases subscribe_fresh answers fresh with ⟨undecided,-⟩ | ⟨-,same⟩
    · obtain ⟨returned,bind⟩ := succeed fresh undecided
      exact register_allBound inv bound returned bind
    · rw [← registers,same]
      exact bound
  | start => exact allBound_frame bound (by simp [Process.start]) (by simp [Process.start]) (by simp [Process.start])
  | stop =>
    intro i s listed
    cases listed
  | openPull _ _ => exact allBound_frame bound rfl rfl (Zmq.zmq_socket_binds ..)
  | handle _ _ _ _ => exact allBound_frame bound rfl rfl (sendLoop_binds ..)
  | connect _ _ | options _ _ | test _ _ | timeout _ _ | receive _ _ | closePull _ _ | closeHandler _ _ _ =>
    exact allBound_frame bound rfl rfl rfl

/-- A subscribe with a call that fails, when it registers, spoils the registry. -/
theorem step_unbound {qt : Qt} {p : Process} {event : Event} (inv : InStep p) (created : BindsCreated p)
    (fails : ¬ CallsSucceed qt p event) : ∃ p', step qt p event = some p' ∧ ¬ AllBound p' := by
  cases event with
  | worker k input => exact absurd trivial fails
  | command c answers =>
    cases c with
    | config m | start m | stop => exact absurd trivial fails
    | subscribe m =>
      simp only [CallsSucceed,Classical.not_imp] at fails
      obtain ⟨fresh,undecided,fails⟩ := fails
      refine ⟨p.subscribe qt m answers,rfl,?_⟩
      rcases subscribe_fresh answers fresh with ⟨-,registers⟩ | ⟨passes,-⟩
      · rw [registers]
        exact register_unbound inv created fresh fails
      · exact absurd undecided passes

/-- Every message that was passed to zmq_msg_send was passed on a socket that had been bound. -/
def SendsBound (p : Process) : Prop := ∀ send ∈ p.zmq.sends, send.socket ≠ .null ∧ ∃ e, p.zmq.Bound send.socket e

theorem sendsBound_frame {p p' : Process} (sent : SendsBound p) (sends : p'.zmq.sends = p.zmq.sends)
    (binds : ∀ bind ∈ p.zmq.binds, bind ∈ p'.zmq.binds) : SendsBound p' := by
  intro send member
  rw [sends] at member
  obtain ⟨nonnull,e,bound⟩ := sent send member
  exact ⟨nonnull,e,binds _ bound⟩

/-- handle sends on the entries of the vector alone. -/
theorem sendLoop_sendsBound {p : Process} {data : List UInt8} {rc : Nat → Int} (bound : AllBound p)
    (sent : SendsBound p) {p' : Process}
    (sends : p'.zmq = Process.sendLoop data rc 0 p.server.subscribers_sockets p.zmq) : SendsBound p' := by
  intro send member
  simp only [sends,Zmq.Bound,sendLoop_binds] at member ⊢
  rcases sendLoop_mem member with old | listed
  · exact sent send old
  · obtain ⟨i,at_i⟩ := List.mem_iff_getElem?.mp listed
    obtain ⟨nonnull,e,-,serves⟩ := bound i _ at_i
    exact ⟨nonnull,e,serves⟩

theorem step_sendsBound {qt : Qt} {p p' : Process} {event : Event} (bound : AllBound p) (sent : SendsBound p)
    (taken : step qt p event = some p') : SendsBound p' := by
  cases step_cases taken with
  | config _ => exact sendsBound_frame sent (by simp) (by simp)
  | duplicate _ _ => exact sent
  | register _ _ =>
    refine sendsBound_frame sent (by simp [register_eq]) fun bind member => ?_
    rw [register_binds]
    exact List.mem_append_left _ member
  | start => exact sendsBound_frame sent (by simp [Process.start]) (by simp [Process.start])
  | stop => exact sendsBound_frame sent (by simp) (by simp)
  | openPull _ _ => exact sendsBound_frame sent (by simp [setWorker]) (by simp [setWorker])
  | handle _ _ _ _ => exact sendLoop_sendsBound bound sent rfl
  | connect _ _ | options _ _ | test _ _ | timeout _ _ | receive _ _ | closePull _ _ | closeHandler _ _ _ =>
    exact sendsBound_frame sent rfl fun bind member => member

/-- A run in which every subscribe that fails is without effect, or in which every socket of
    the registry is bound in every state, is one in which no call of a registering subscribe
    fails; handle then sends on bound sockets alone. -/
theorem subscribes_atomic_iff (qt : Qt) (m_handler : Nat) (addr : { a : Nat // 0 < a }) (events : List Event) :
    (Meets (step qt) (Atomic qt) (construct m_handler addr) events ↔
      Meets (step qt) (CallsSucceed qt) (construct m_handler addr) events) ∧
    ((∀ p, Visits (step qt) (construct m_handler addr) events p → AllBound p) ↔
      Meets (step qt) (CallsSucceed qt) (construct m_handler addr) events) ∧
    (Meets (step qt) (CallsSucceed qt) (construct m_handler addr) events →
      ∀ p, Visits (step qt) (construct m_handler addr) events p → SendsBound p) := by
  refine ⟨meets_congr (atomic_iff qt),?_,?_⟩
  · refine visits_iff_meets (fun p => InStep p ∧ BindsCreated p) ?_ ?_ ?_ ?_ (fun i s listed => by cases listed)
    · rintro p event p' ⟨inv,created⟩ taken
      exact ⟨step_inStep inv taken,step_bindsCreated created taken⟩
    · rintro p event p' ⟨inv,-⟩ bound succeed taken
      exact step_allBound inv bound succeed taken
    · rintro p event ⟨inv,created⟩ bound fails
      exact step_unbound inv created fails
    · exact ⟨construct_inStep m_handler addr,fun bind member => by cases member⟩
  · rintro succeed p ⟨before,after,rfl,executed⟩
    have preserved : ∀ p event p', InStep p ∧ AllBound p ∧ SendsBound p → CallsSucceed qt p event →
        step qt p event = some p' → InStep p' ∧ AllBound p' ∧ SendsBound p' := by
      rintro p event p' ⟨inv,bound,sent⟩ permitted taken
      exact ⟨step_inStep inv taken,step_allBound inv bound permitted taken,step_sendsBound bound sent taken⟩
    refine (run_invariant preserved ?_ (meets_append succeed executed).1 executed).2.2
    exact ⟨construct_inStep m_handler addr,(fun i s listed => by cases listed),(fun send member => by cases member)⟩

/-- A subscribe whose zmq_bind fails leaves its endpoint registered beside a socket that is
    not bound, and the next subscribe finds it registered. -/
theorem failed_subscribe_registers : ∃ p,
    run (step (.table [])) (construct 0 ⟨1,Nat.one_pos⟩)
      [.command (.subscribe [(key "endpoint",.string (key "tcp://*:1"))]) ⟨false,true,false,0⟩] = some p ∧
    p.server.subscribers = [literal "tcp://*:1"] ∧ ¬ AllBound p ∧
    p.subscribe (.table []) [(key "endpoint",.string (key "tcp://*:1"))] .granted = p := by
  refine ⟨_,rfl,rfl,?_,rfl⟩
  intro bound
  obtain ⟨-,e,-,here⟩ := bound 0 (.socket 0) rfl
  have succeeded : true = false := congrArg Attachment.succeeded (List.mem_singleton.mp here)
  cases succeeded

end ZmqOut.Subscribing
