import ZmqOut.Server

/-!
What one step of the node can do, said once: the effect of every function of the
server on every field, and the cases of a step with the state after each.
-/
namespace ZmqOut.Steps
open ZmqOut.DataStream ZmqOut.Variant ZmqOut.Sockets ZmqOut.Server

/-! ### The functions of the server -/

section
variable (p : Process) (memory : Nat)

theorem ensureHandler_frame : p.ensureHandler memory =
    { p with
      server.m_handler := (p.ensureHandler memory).server.m_handler
      heap := (p.ensureHandler memory).heap } := by
  unfold Process.ensureHandler
  split <;> rfl

@[simp] theorem ensureHandler_subscribers :
    (p.ensureHandler memory).server.subscribers = p.server.subscribers := by rw [ensureHandler_frame]
@[simp] theorem ensureHandler_sockets :
    (p.ensureHandler memory).server.subscribers_sockets = p.server.subscribers_sockets := by rw [ensureHandler_frame]
@[simp] theorem ensureHandler_thread :
    (p.ensureHandler memory).server.m_thread = p.server.m_thread := by rw [ensureHandler_frame]
@[simp] theorem ensureHandler_pull :
    (p.ensureHandler memory).server.pull_context = p.server.pull_context := by rw [ensureHandler_frame]
@[simp] theorem ensureHandler_addr :
    (p.ensureHandler memory).server.socketsAddr = p.server.socketsAddr := by rw [ensureHandler_frame]
@[simp] theorem ensureHandler_stop : (p.ensureHandler memory)._stop = p._stop := by rw [ensureHandler_frame]
@[simp] theorem ensureHandler_zmq : (p.ensureHandler memory).zmq = p.zmq := by rw [ensureHandler_frame]
@[simp] theorem ensureHandler_workers : (p.ensureHandler memory).workers = p.workers := by rw [ensureHandler_frame]

theorem ensureHandler_set (set : p.server.m_handler ≠ 0) : p.ensureHandler memory = p := by
  simp [Process.ensureHandler,set]

/-- A null pointer is replaced by the address of a new handler that has the
    address of the server's vector. -/
theorem ensureHandler_null (null : p.server.m_handler = 0) :
    (p.ensureHandler memory).server.m_handler = p.heap.length + 1 ∧
      (p.ensureHandler memory).heap =
        p.heap ++ [⟨memory,p.server.socketsAddr,false,none⟩] := by
  simp [Process.ensureHandler,null,Process.initHandler,ZmqOutHandler.new,ZmqOutHandler.setSubscriberSocks]

end

theorem handler_set {p : Process} {a : Nat} {h : ZmqOutHandler} (found : p.handler? a = some h) :
    { p with heap := p.heap.set (a - 1) h } = p := by
  cases a with
  | zero => simp [Process.handler?] at found
  | succ k =>
    have same : p.heap.set k h = p.heap := by
      obtain ⟨inside,here⟩ := List.getElem?_eq_some_iff.mp found
      rw [← here,List.set_getElem_self]
    rw [Nat.add_sub_cancel,same]

/-- Since parseConfig assigns no field, config does no more than make sure that
    there is a handler. -/
theorem config_some {qt : Qt} {m : QVariantMap} {answers : Answers} {p p' : Process} {r : Except Exn Unit} :
    p.config qt m answers = some (r,p') ↔
      r = .ok () ∧ p' = p.ensureHandler answers.memory ∧ ∃ h, p'.handler? p'.server.m_handler = some h := by
  unfold Process.config
  generalize p.ensureHandler answers.memory = q
  cases found : q.handler? q.server.m_handler with
  | none =>
    simp only [found,reduceCtorEq,false_iff,not_and,not_exists]
    rintro - rfl h
    simp [found]
  | some h =>
    simp only [found,ZmqOutHandler.parseConfig,handler_set found,Option.some.injEq,Prod.mk.injEq]
    constructor
    · rintro ⟨rfl,rfl⟩
      exact ⟨rfl,rfl,h,found⟩
    · rintro ⟨rfl,rfl,-⟩
      exact ⟨rfl,rfl⟩

/-- The search ends at the endpoint when it is there, and past the end otherwise. -/
theorem derefEquals_find (subscribers : List StdString) (endpoint : StdString) (pastEnd : Bool) :
    Process.derefEquals subscribers (Process.find subscribers endpoint) endpoint pastEnd =
      (decide (endpoint ∈ subscribers) || pastEnd) := by
  unfold Process.derefEquals Process.find
  by_cases member : endpoint ∈ subscribers
  · have inside : subscribers.findIdx (· == endpoint) < subscribers.length :=
      List.findIdx_lt_length_of_exists ⟨endpoint,member,by simp⟩
    rw [List.getElem?_eq_getElem inside]
    have found := List.findIdx_getElem (w := inside)
    simp [member,found]
  · have outside : subscribers.findIdx (· == endpoint) = subscribers.length := by
      apply List.findIdx_eq_length_of_false
      intro e listed
      have other : e ≠ endpoint := fun same => member (same ▸ listed)
      simpa using other
    simp [outside,member]

/-- The test of subscribe comes out true for an endpoint that is registered and where
    the comparison past the end does. -/
theorem duplicate_iff {subscribers : List StdString} {endpoint : StdString} {pastEnd : Bool} :
    (subscribers.length > 0 &&
      Process.derefEquals subscribers (Process.find subscribers endpoint) endpoint pastEnd) = true ↔
      subscribers ≠ [] ∧ (endpoint ∈ subscribers ∨ pastEnd = true) := by
  simp [derefEquals_find,List.length_pos_iff]

/-- subscribe registers exactly the endpoints that are not registered, provided
    that the comparison past the end does not come out true. -/
theorem subscribe_eq (qt : Qt) (m : QVariantMap) (answers : Answers) (p : Process) :
    p.subscribe qt m answers =
      if p.server.subscribers ≠ [] ∧ (Process.endpointOf qt m ∈ p.server.subscribers ∨ answers.pastEnd = true) then p
      else p.register (Process.endpointOf qt m) answers := by
  simp only [Process.subscribe,duplicate_iff]

/-- The pointer that zmq_socket returns to a registration. -/
def newSocket (answers : Answers) (p : Process) : VoidPtr :=
  if answers.socket then .socket p.zmq.created.length else .null

theorem newSocket_ne_null {answers : Answers} {p : Process} : newSocket answers p ≠ .null ↔ answers.socket = true := by
  cases returned : answers.socket <;> simp [newSocket,returned]

theorem register_eq (endpoint : StdString) (answers : Answers) (p : Process) :
    p.register endpoint answers =
      { p with
        server.subscribers := p.server.subscribers ++ [endpoint]
        server.subscribers_sockets := p.server.subscribers_sockets ++ [newSocket answers p]
        zmq := (p.zmq.zmq_socket p.server.push_context .ZMQ_PUSH answers.socket).2.zmq_bind (newSocket answers p)
          (c_str endpoint) answers.bind } := by
  unfold Process.register newSocket Zmq.zmq_socket
  cases answers.socket <;> rfl

/-- The call of do_start that start hands to its thread. -/
def newWorker (qt : Qt) (m : QVariantMap) (answers : Answers) (p : Process) : Worker :=
  let q := p.ensureHandler answers.memory
  ⟨.socket,q.server.pull_context,Process.endpointOf qt m,q.server.m_handler,.null⟩

theorem start_workers (qt : Qt) (m : QVariantMap) (answers : Answers) (p : Process) :
    (p.start qt m answers).workers = p.workers ++ [newWorker qt m answers p] := by
  simp [Process.start,newWorker]

theorem closeLoop_eq (sockets : List VoidPtr) (zmq : Zmq) :
    Process.closeLoop sockets zmq = { zmq with closes := zmq.closes ++ sockets } := by
  induction sockets generalizing zmq with
  | nil => simp [Process.closeLoop]
  | cons push_sock rest ih => simp [Process.closeLoop,ih,Zmq.zmq_close]

section
variable (p : Process)

@[simp] theorem stop_created : p.stop.zmq.created = p.zmq.created := by rw [Process.stop,closeLoop_eq]
@[simp] theorem stop_binds : p.stop.zmq.binds = p.zmq.binds := by rw [Process.stop,closeLoop_eq]
@[simp] theorem stop_sends : p.stop.zmq.sends = p.zmq.sends := by rw [Process.stop,closeLoop_eq]
@[simp] theorem stop_closes : p.stop.zmq.closes = p.zmq.closes ++ p.server.subscribers_sockets := by
  rw [Process.stop,closeLoop_eq]

end

/-- The send loop passes the data once to every socket of the vector, in order,
    whatever the sends return. -/
theorem sendLoop_eq (data : List UInt8) (rc : Nat → Int) (i : Nat) (sockets : List VoidPtr) (zmq : Zmq) :
    ∃ sends, Process.sendLoop data rc i sockets zmq = { zmq with sends := zmq.sends ++ sends } ∧
      sends.map (fun send => (send.socket,send.data)) = sockets.map (fun socket => (socket,data)) := by
  induction sockets generalizing i zmq with
  | nil => exact ⟨[],by simp [Process.sendLoop],rfl⟩
  | cons sub_sock rest ih =>
    obtain ⟨sends,executed,passed⟩ := ih (i + 1) (zmq.zmq_msg_send data sub_sock (rc i))
    refine ⟨⟨sub_sock,data,rc i⟩ :: sends,?_,by simp [passed]⟩
    rw [Process.sendLoop,executed]
    simp [Zmq.zmq_msg_send]

/-- What the loop sends goes to the entries of the vector. -/
theorem sendLoop_mem {data : List UInt8} {rc : Nat → Int} {i : Nat} {sockets : List VoidPtr} {zmq : Zmq} {send : Send}
    (member : send ∈ (Process.sendLoop data rc i sockets zmq).sends) : send ∈ zmq.sends ∨ send.socket ∈ sockets := by
  obtain ⟨sends,executed,passed⟩ := sendLoop_eq data rc i sockets zmq
  rw [executed] at member
  refine (List.mem_append.mp member).imp_right fun new => ?_
  have pair := List.mem_map_of_mem (f := fun send => (send.socket,send.data)) new
  rw [passed] at pair
  obtain ⟨s,listed,made⟩ := List.mem_map.mp pair
  exact (Prod.mk.inj made).1 ▸ listed

section
variable (data : List UInt8) (rc : Nat → Int) (i : Nat) (sockets : List VoidPtr) (zmq : Zmq)

theorem sendLoop_frame : Process.sendLoop data rc i sockets zmq =
    { zmq with sends := (Process.sendLoop data rc i sockets zmq).sends } := by
  obtain ⟨sends,executed,-⟩ := sendLoop_eq data rc i sockets zmq
  rw [executed]

@[simp] theorem sendLoop_created : (Process.sendLoop data rc i sockets zmq).created = zmq.created := by
  rw [sendLoop_frame]
@[simp] theorem sendLoop_binds : (Process.sendLoop data rc i sockets zmq).binds = zmq.binds := by rw [sendLoop_frame]
@[simp] theorem sendLoop_closes : (Process.sendLoop data rc i sockets zmq).closes = zmq.closes := by
  rw [sendLoop_frame]

end

/-! ### The cases of a step -/

/-- The message that doHandle makes of a frame. -/
def payload (qt : Qt) (duration : UInt64) : List UInt8 :=
  writeQString (some (qt.toJson [(key "node_check_end",.double duration)]))

/-- The process with the worker of thread `k` replaced. -/
def setWorker (k : Nat) (w : Worker) (p : Process) : Process := { p with workers := p.workers.set k w }

/-- The step of the worker that has this thread. -/
theorem step_worker {qt : Qt} {p : Process} {k : Nat} {w : Worker} (there : p.workers[k]? = some w) (input : Input) :
    step qt p (.worker k input) = (do_start qt w input p).map fun (w,p) => setWorker k w p := by
  rw [step,there]
  rfl

theorem step_handle {qt : Qt} {p : Process} {k : Nat} {w : Worker} {df : data_frame} {h : ZmqOutHandler}
    (there : p.workers[k]? = some w) (pc : w.pc = .handle df) (found : p.handler? w.handler = some h)
    (vector : h.subscribers_sockets = p.server.socketsAddr) (input : Input) :
    step qt p (.worker k input) = some (setWorker k { w with pc := .test }
      { p with zmq :=
        Process.sendLoop (payload qt input.duration) input.rc 0 p.server.subscribers_sockets p.zmq }) := by
  rw [step_worker there]
  simp only [do_start,pc,found,Process.handle,Process.vector?,vector,↓reduceIte,Option.bind_some,Option.map_some,
    ZmqOutHandler.doHandle]
  rfl

theorem setWorker_get {p : Process} {k : Nat} {w : Worker} (inside : k < p.workers.length) :
    (setWorker k w p).workers[k]? = some w := by
  simp [setWorker,inside]

/-- Replacing a worker by one that agrees with it leaves alone what all agree on. -/
theorem map_set_same {β : Type} {f : Worker → β} {workers : List Worker} {k : Nat} {w w' : Worker}
    (there : workers[k]? = some w) (same : f w' = f w) : (workers.set k w').map f = workers.map f := by
  have listed : (workers.map f)[k]? = some (f w') := by simp [there,same]
  obtain ⟨inside,here⟩ := List.getElem?_eq_some_iff.mp listed
  rw [List.map_set,← here,List.set_getElem_self]

/-- Workers that agree with others in a field have its value from one of them. -/
theorem worker_before {β : Type} {f : Worker → β} {workers workers' : List Worker} (same : workers'.map f = workers.map f)
    {w : Worker} (member : w ∈ workers') : ∃ v ∈ workers, f v = f w := by
  have listed : f w ∈ workers.map f := same ▸ List.mem_map_of_mem member
  exact List.mem_map.mp listed

inductive Step (qt : Qt) : Process → Event → Process → Prop where
  | config {p : Process} {m : QVariantMap} {answers : Answers} {h : ZmqOutHandler}
      (found : (p.ensureHandler answers.memory).handler? (p.ensureHandler answers.memory).server.m_handler = some h) :
      Step qt p (.command (.config m) answers) (p.ensureHandler answers.memory)
  | duplicate {p : Process} {m : QVariantMap} {answers : Answers} (nonempty : p.server.subscribers ≠ [])
      (again : Process.endpointOf qt m ∈ p.server.subscribers ∨ answers.pastEnd = true) :
      Step qt p (.command (.subscribe m) answers) p
  | register {p : Process} {m : QVariantMap} {answers : Answers}
      (fresh : Process.endpointOf qt m ∉ p.server.subscribers)
      (registers : p.subscribe qt m answers = p.register (Process.endpointOf qt m) answers) :
      Step qt p (.command (.subscribe m) answers) (p.register (Process.endpointOf qt m) answers)
  | start {p : Process} {m : QVariantMap} {answers : Answers} :
      Step qt p (.command (.start m) answers) (p.start qt m answers)
  | stop {p : Process} {answers : Answers} : Step qt p (.command .stop answers) p.stop
  | openPull {p : Process} {k : Nat} {input : Input} {w : Worker} (there : p.workers[k]? = some w)
      (pc : w.pc = .socket) :
      Step qt p (.worker k input)
        (setWorker k { w with pc := .connect,pull := (p.zmq.zmq_socket w.context .ZMQ_PULL input.socket).1 }
          { p with zmq := (p.zmq.zmq_socket w.context .ZMQ_PULL input.socket).2 })
  | connect {p : Process} {k : Nat} {input : Input} {w : Worker} (there : p.workers[k]? = some w)
      (pc : w.pc = .connect) :
      Step qt p (.worker k input)
        (setWorker k { w with pc := .options }
          { p with zmq := p.zmq.zmq_connect w.pull (c_str w.endpoint) input.connect })
  | options {p : Process} {k : Nat} {input : Input} {w : Worker} (there : p.workers[k]? = some w)
      (pc : w.pc = .options) : Step qt p (.worker k input) (setWorker k { w with pc := .test } p)
  | test {p : Process} {k : Nat} {input : Input} {w : Worker} (there : p.workers[k]? = some w)
      (pc : w.pc = .test) :
      Step qt p (.worker k input) (setWorker k { w with pc := if p._stop then .closePull else .recv } p)
  | timeout {p : Process} {k : Nat} {input : Input} {w : Worker} (there : p.workers[k]? = some w)
      (pc : w.pc = .recv) : Step qt p (.worker k input) (setWorker k { w with pc := .test } p)
  | receive {p : Process} {k : Nat} {input : Input} {w : Worker} {df : data_frame}
      (there : p.workers[k]? = some w) (pc : w.pc = .recv) :
      Step qt p (.worker k input) (setWorker k { w with pc := .handle df } p)
  | handle {p : Process} {k : Nat} {input : Input} {w : Worker} {df : data_frame} {h : ZmqOutHandler}
      (there : p.workers[k]? = some w) (pc : w.pc = .handle df) (found : p.handler? w.handler = some h)
      (vector : h.subscribers_sockets = p.server.socketsAddr) :
      Step qt p (.worker k input)
        (setWorker k { w with pc := .test }
          { p with zmq := Process.sendLoop (payload qt input.duration) input.rc 0 p.server.subscribers_sockets p.zmq })
  | closePull {p : Process} {k : Nat} {input : Input} {w : Worker} (there : p.workers[k]? = some w)
      (pc : w.pc = .closePull) :
      Step qt p (.worker k input)
        (setWorker k { w with pc := .closeHandler } { p with zmq := p.zmq.zmq_close w.pull })
  | closeHandler {p : Process} {k : Nat} {input : Input} {w : Worker} {h : ZmqOutHandler}
      (there : p.workers[k]? = some w) (pc : w.pc = .closeHandler) (found : p.handler? w.handler = some h) :
      Step qt p (.worker k input) (setWorker k { w with pc := .done } p)

theorem command_cases {qt : Qt} {c : Command} {answers : Answers} {p p' : Process} {r : Except Exn Unit}
    (executed : execute qt c answers p = some (r,p')) : Step qt p (.command c answers) p' := by
  cases c with
  | config m =>
    have called : p.config qt m answers = some (r,p') := executed
    obtain ⟨-,rfl,h,found⟩ := config_some.mp called
    exact .config found
  | subscribe m =>
    obtain ⟨-,rfl⟩ := Prod.mk.inj (Option.some.inj executed)
    by_cases again : p.server.subscribers ≠ [] ∧
        (Process.endpointOf qt m ∈ p.server.subscribers ∨ answers.pastEnd = true)
    · rw [subscribe_eq,if_pos again]
      exact .duplicate again.1 again.2
    · have registers := (subscribe_eq qt m answers p).trans (if_neg again)
      rw [registers]
      exact .register (fun member => again ⟨List.ne_nil_of_mem member,.inl member⟩) registers
  | start m =>
    obtain ⟨-,rfl⟩ := Prod.mk.inj (Option.some.inj executed)
    exact .start
  | stop =>
    obtain ⟨-,rfl⟩ := Prod.mk.inj (Option.some.inj executed)
    exact .stop

theorem worker_cases {qt : Qt} {k : Nat} {input : Input} {p p₁ : Process} {w w' : Worker}
    (there : p.workers[k]? = some w) (moved : do_start qt w input p = some (w',p₁)) :
    Step qt p (.worker k input) (setWorker k w' p₁) := by
  cases pc : w.pc with
  | socket =>
    simp only [do_start,pc,Option.some.injEq,Prod.mk.injEq] at moved
    obtain ⟨rfl,rfl⟩ := moved
    exact .openPull there pc
  | connect =>
    simp only [do_start,pc,Option.some.injEq,Prod.mk.injEq] at moved
    obtain ⟨rfl,rfl⟩ := moved
    exact .connect there pc
  | options =>
    simp only [do_start,pc,Option.some.injEq,Prod.mk.injEq] at moved
    obtain ⟨rfl,rfl⟩ := moved
    exact .options there pc
  | test =>
    simp only [do_start,pc,Option.some.injEq,Prod.mk.injEq] at moved
    obtain ⟨rfl,rfl⟩ := moved
    exact .test there pc
  | recv =>
    simp only [do_start,pc] at moved
    cases message : input.message with
    | none =>
      simp only [message,Option.some.injEq,Prod.mk.injEq] at moved
      obtain ⟨rfl,rfl⟩ := moved
      exact .timeout there pc
    | some bytes =>
      simp only [message,Option.some.injEq,Prod.mk.injEq] at moved
      obtain ⟨rfl,rfl⟩ := moved
      exact .receive there pc
  | handle df =>
    simp only [do_start,pc,Option.bind_eq_some_iff,Option.map_eq_some_iff,Process.handle,Process.vector?,
      ZmqOutHandler.doHandle,Prod.mk.injEq] at moved
    obtain ⟨h,found,q,⟨sockets,denoted,sent⟩,rfl,rfl⟩ := moved
    split at denoted
    · rename_i vector
      cases denoted
      subst sent
      exact .handle there pc found vector
    · cases denoted
  | closePull =>
    simp only [do_start,pc,Option.some.injEq,Prod.mk.injEq] at moved
    obtain ⟨rfl,rfl⟩ := moved
    exact .closePull there pc
  | closeHandler =>
    simp only [do_start,pc,Option.map_eq_some_iff,Prod.mk.injEq] at moved
    obtain ⟨h,found,rfl,rfl⟩ := moved
    exact .closeHandler there pc found
  | guard _ | loop _ _ | fetch _ _ | send _ _ _ | done => simp [do_start,pc] at moved

/-- Every step of the node is one of the cases. -/
theorem step_cases {qt : Qt} {p p' : Process} {event : Event} (taken : step qt p event = some p') :
    Step qt p event p' := by
  cases event with
  | command c answers =>
    obtain ⟨⟨r,q⟩,executed,rfl⟩ := Option.map_eq_some_iff.mp taken
    exact command_cases executed
  | worker k input =>
    obtain ⟨w,there,moved⟩ := Option.bind_eq_some_iff.mp taken
    obtain ⟨⟨w',p₁⟩,executed,rfl⟩ := Option.map_eq_some_iff.mp moved
    exact worker_cases there executed

end ZmqOut.Steps
