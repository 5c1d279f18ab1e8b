import ZmqOut.Broadcast
import ZmqOut.Registry

/-!
What is sent on the sockets of the subscribers. The process performs a hub whose
lanes are the sockets: a registration joins, a handled frame publishes what
doHandle makes of it, and a stop resets.
-/
namespace ZmqOut.FanOut
open ZmqOut.Runs ZmqOut.Broadcast ZmqOut.DataStream ZmqOut.Variant ZmqOut.Sockets ZmqOut.Server ZmqOut.Steps
  ZmqOut.Registry

def hub (p : Process) : Hub VoidPtr (List UInt8) := ⟨p.server.subscribers_sockets,p.zmq.sentOn⟩

/-- What doHandle returns in this step, unless it is null. -/
def produced (qt : Qt) (p : Process) : Event → List (List UInt8)
  | .worker k input => match p.workers[k]?.map Worker.pc with
    | some (.handle df) => (ZmqOutHandler.doHandle qt df input.duration).toList
    | _ => []
  | .command _ _ => []

/-- What the step is for the hub. -/
def ops (qt : Qt) (p : Process) : Event → List (Op VoidPtr (List UInt8))
  | .command (.subscribe m) answers =>
    if (p.subscribe qt m answers).server.subscribers.length = p.server.subscribers.length then []
    else [.join (newSocket answers p)]
  | .command .stop _ => [.reset]
  | .command _ _ => []
  | .worker k input => (produced qt p (.worker k input)).map .publish

/-! ### The process performs the hub -/

theorem sentOn_congr {z z' : Zmq} (same : z'.sends = z.sends) : z'.sentOn = z.sentOn := by
  funext socket
  rw [Zmq.sentOn,Zmq.sentOn,same]

theorem zmq_msg_send_sentOn (z : Zmq) (data : List UInt8) (sub_sock socket : VoidPtr) (rc : Int) :
    (z.zmq_msg_send data sub_sock rc).sentOn socket = z.sentOn socket ++ if sub_sock = socket then [data] else [] := by
  by_cases same : sub_sock = socket
  · simp [Zmq.sentOn,Zmq.zmq_msg_send,same]
  · simp [Zmq.sentOn,Zmq.zmq_msg_send,same]

/-- The send loop sends the data on a socket once for each entry of the vector, and
    what one send returns changes none of the others. -/
theorem sendLoop_sentOn (data : List UInt8) (rc : Nat → Int) (i : Nat) (sockets : List VoidPtr) (z : Zmq)
    (socket : VoidPtr) :
    (Process.sendLoop data rc i sockets z).sentOn socket =
      z.sentOn socket ++ List.replicate (sockets.count socket) data := by
  induction sockets generalizing i z with
  | nil => simp [Process.sendLoop]
  | cons sub_sock rest ih =>
    rw [Process.sendLoop,ih,zmq_msg_send_sentOn,List.append_assoc]
    by_cases same : sub_sock = socket
    · rw [if_pos same,same,List.count_cons_self,List.replicate_succ,List.singleton_append]
    · rw [if_neg same,List.count_cons_of_ne same,List.nil_append]

/-- A step that touches neither the vector nor the messages sent is none of the hub's. -/
theorem hub_frame {p p' : Process} (sockets : p'.server.subscribers_sockets = p.server.subscribers_sockets)
    (sends : p'.zmq.sends = p.zmq.sends) : hub p' = hub p := by
  rw [hub,hub,sockets,sentOn_congr sends]

theorem step_refines {qt : Qt} {p p' : Process} {event : Event} (taken : step qt p event = some p') :
    run Hub.step (hub p) (ops qt p event) = some (hub p') := by
  cases step_cases taken with
  | config _ => exact congrArg some (hub_frame (by simp) (by simp)).symm
  | @duplicate m answers nonempty again =>
    have same : p.subscribe qt m answers = p := by rw [subscribe_eq,if_pos ⟨nonempty,again⟩]
    simp only [ops,same,↓reduceIte,run_nil]
  | @register m answers fresh registers =>
    have sends : (p.register (Process.endpointOf qt m) answers).zmq.sends = p.zmq.sends := by simp [register_eq]
    have joins : ops qt p (.command (.subscribe m) answers) = [.join (newSocket answers p)] := by
      simp [ops,registers,register_eq]
    rw [joins]
    show some ((hub p).join (newSocket answers p)) = some (hub _)
    rw [hub,hub,sentOn_congr sends,register_eq]
    rfl
  | start => exact congrArg some (hub_frame (by simp [Process.start]) (by simp [Process.start])).symm
  | stop =>
    show some (hub p).reset = some (hub p.stop)
    rw [hub,hub,sentOn_congr (stop_sends p)]
    rfl
  | @handle k input w df h there pc found vector =>
    have publishes : ops qt p (.worker k input) = [.publish (payload qt input.duration)] := by
      simp [ops,produced,there,pc,ZmqOutHandler.doHandle,payload]
    have received : (Process.sendLoop (payload qt input.duration) input.rc 0 p.server.subscribers_sockets p.zmq).sentOn =
        ((hub p).publish (payload qt input.duration)).received := funext fun socket => sendLoop_sentOn ..
    rw [publishes]
    exact congrArg (fun received => some (Hub.mk p.server.subscribers_sockets received)) received.symm
  | openPull there pc =>
    simp only [ops,produced,there,pc,Option.map_some,List.map_nil,run_nil]
    refine congrArg some (hub_frame ?_ ?_).symm
    · rfl
    · exact Zmq.zmq_socket_sends ..
  | connect there pc | options there pc | test there pc | timeout there pc | receive there pc | closePull there pc
  | closeHandler there pc _ =>
    simp only [ops,produced,there,pc,Option.map_some,List.map_nil,run_nil]
    rfl

/-! ### What a subscriber is sent -/

def isStop : Event → Bool
  | .command .stop _ => true
  | _ => false

/-- Up to the first stop the hub publishes what the frames are made into. -/
theorem published_ops {qt : Qt} {p p' : Process} {events : List Event} (executed : run (step qt) p events = some p') :
    published (trace (step qt) (ops qt) p events) =
      trace (step qt) (produced qt) p (events.takeWhile fun event => !isStop event) := by
  induction events generalizing p with
  | nil => rfl
  | cons event rest ih =>
    obtain ⟨u,first,later⟩ := run_cons_some.mp executed
    have onward := ih later
    cases event with
    | worker k input =>
      rw [List.takeWhile_cons_of_pos (by rfl),trace,trace,first,ops,published_publish,onward]
    | command c answers =>
      cases c with
      | config m | start m =>
        rw [List.takeWhile_cons_of_pos (by rfl),trace,trace,first]
        exact onward
      | subscribe m =>
        rw [List.takeWhile_cons_of_pos (by rfl),trace,trace,first,ops]
        split
        · exact onward
        · exact onward
      | stop => rfl

/-- Messages are sent through the null pointer or on sockets that exist. -/
def SendsCreated (p : Process) : Prop := ∀ send ∈ p.zmq.sends, ∀ k, send.socket = .socket k → k < p.zmq.created.length

theorem sendsCreated_frame {p p' : Process} (created : SendsCreated p) (sends : p'.zmq.sends = p.zmq.sends)
    (grown : p.zmq.created.length ≤ p'.zmq.created.length) : SendsCreated p' := by
  intro send member k same
  rw [sends] at member
  exact Nat.lt_of_lt_of_le (created send member k same) grown

theorem step_sendsCreated {qt : Qt} {p p' : Process} {event : Event} (inv : InStep p) (created : SendsCreated p)
    (taken : step qt p event = some p') : SendsCreated p' := by
  have grown := step_created_le taken
  cases step_cases taken with
  | handle _ _ _ _ =>
    intro send member k same
    rcases sendLoop_mem member with old | listed
    · exact Nat.lt_of_lt_of_le (created send old k same) grown
    · rw [same] at listed
      exact Nat.lt_of_lt_of_le (Zmq.created_lt (inv.unclosed _ listed (by simp)).1) grown
  | config _ => exact sendsCreated_frame created (by simp) grown
  | duplicate _ _ => exact created
  | register _ _ => exact sendsCreated_frame created (by simp [register_eq]) grown
  | start => exact sendsCreated_frame created (by simp [Process.start]) grown
  | stop => exact sendsCreated_frame created (by simp) grown
  | openPull _ _ => exact sendsCreated_frame created (Zmq.zmq_socket_sends ..) grown
  | connect _ _ | options _ _ | test _ _ | timeout _ _ | receive _ _ | closePull _ _ | closeHandler _ _ _ =>
    exact sendsCreated_frame created rfl grown

/-- A socket that exists joins no more. -/
theorem join_new {qt : Qt} {p : Process} {event : Event} {k : Nat} (old : k < p.zmq.created.length) :
    .join (.socket k) ∉ ops qt p event := by
  intro member
  cases event with
  | worker j input => simp [ops] at member
  | command c answers =>
    cases c with
    | config m | start m => cases member
    | stop => simp [ops] at member
    | subscribe m =>
      rw [ops] at member
      split at member
      · cases member
      · have same : VoidPtr.socket k = newSocket answers p := by simpa using member
        unfold newSocket at same
        split at same
        · cases same
          exact Nat.lt_irrefl _ old
        · cases same

theorem join_once {qt : Qt} {p p' : Process} {events : List Event} {k : Nat} (old : k < p.zmq.created.length)
    (executed : run (step qt) p events = some p') : .join (.socket k) ∉ trace (step qt) (ops qt) p events := by
  induction events generalizing p with
  | nil => exact List.not_mem_nil
  | cons event rest ih =>
    obtain ⟨u,first,later⟩ := run_cons_some.mp executed
    rw [trace,first,List.mem_append]
    rintro (here | after)
    · exact join_new old here
    · exact ih (Nat.lt_of_lt_of_le old (step_created_le first)) later after

/-- A subscribe that creates a socket registers it. -/
theorem created_registers {qt : Qt} {p : Process} {m : QVariantMap} {answers : Answers} {e : StdString} {s : VoidPtr}
    (created : createdFor qt p (.command (.subscribe m) answers) = [(e,s)]) :
    s = .socket p.zmq.created.length ∧ answers.socket = true ∧
      p.subscribe qt m answers = p.register (Process.endpointOf qt m) answers := by
  rw [createdFor] at created
  split at created
  · cases created
  · rename_i grows
    cases created
    rw [subscribe_eq] at grows ⊢
    split at grows
    · exact absurd rfl grows
    · rename_i registers
      refine ⟨rfl,?_,if_neg registers⟩
      by_contra fails
      simp [register_eq,Zmq.zmq_socket_created,fails] at grows

/-- After a subscribe that creates a socket exactly the payloads of the frames
    handled until the next stop are sent on it, in order and once each. -/
theorem fan_out (qt : Qt) (addr : { a : Nat // 0 < a }) (before after : List Event) (m : QVariantMap)
    (answers : Answers) (e : StdString) (s : VoidPtr) (p p₁ p₂ : Process)
    (executed : run (step qt) (construct 0 addr) before = some p)
    (created : createdFor qt p (.command (.subscribe m) answers) = [(e,s)])
    (subscribed : step qt p (.command (.subscribe m) answers) = some p₁)
    (later : run (step qt) p₁ after = some p₂) :
    p₂.zmq.sentOn s = trace (step qt) (produced qt) p₁ (after.takeWhile fun event => !isStop event) := by
  have start : InStep (construct 0 addr) ∧ SendsCreated (construct 0 addr) :=
    ⟨construct_inStep 0 addr,fun send member => by cases member⟩
  have advance : ∀ q event q', InStep q ∧ SendsCreated q → step qt q event = some q' → InStep q' ∧ SendsCreated q' := by
    rintro q event q' ⟨inStep,sends⟩ taken
    exact ⟨step_inStep inStep taken,step_sendsCreated inStep sends taken⟩
  have inv := run_preserved advance start executed
  obtain ⟨rfl,succeeds,registers⟩ := created_registers created
  have effect : p₁ = p.register (Process.endpointOf qt m) answers := by
    rw [← registers]
    exact (Option.some.inj subscribed).symm
  have listed : p₁.server.subscribers_sockets = p.server.subscribers_sockets ++ [.socket p.zmq.created.length] := by
    simp [effect,register_eq,newSocket,succeeds]
  have joined : (hub p₁).live.count (.socket p.zmq.created.length) = 1 := by
    have unlisted := (new_socket_unused inv.1).1
    simp [hub,listed,List.count_eq_zero_of_not_mem unlisted]
  have silent : (hub p₁).received (.socket p.zmq.created.length) = [] := by
    have sends : p₁.zmq.sends = p.zmq.sends := by simp [effect,register_eq]
    show p₁.zmq.sentOn _ = []
    rw [sentOn_congr sends,Zmq.sentOn,List.map_eq_nil_iff,List.filter_eq_nil_iff]
    intro send member same
    exact Nat.lt_irrefl _ (inv.2 send member _ (of_decide_eq_true same))
  have exists₁ : p.zmq.created.length < p₁.zmq.created.length := by
    simp [effect,register_eq,Zmq.zmq_socket_created,succeeds]
  have received := received_live joined (join_once exists₁ later) (run_performed (fun _ _ _ => step_refines) later)
  rw [silent,List.nil_append,published_ops later] at received
  exact received

/-- The frame that is handled before the stop is sent to the subscriber and the one
    that is handled after it is not. -/
theorem fan_out_one_frame : ∃ p₁ p₂,
    step (.table []) (construct 0 ⟨1,Nat.one_pos⟩) (subscribeTo "tcp://*:1") = some p₁ ∧
    run (step (.table [])) p₁ ([.command (.start []) .granted] ++ polls (some (data_frame.write ⟨none,none⟩)) 8 ++
      [.command .stop .granted] ++ polls none 1) = some p₂ ∧
    p₂.zmq.sentOn (.socket 0) = [payload (.table []) 0] := by
  refine ⟨_,_,rfl,rfl,?_⟩
  exact fan_out (.table []) ⟨1,Nat.one_pos⟩ [] ([.command (.start []) .granted] ++
    polls (some (data_frame.write ⟨none,none⟩)) 8 ++ [.command .stop .granted] ++ polls none 1)
    [(key "endpoint",.string (key "tcp://*:1"))] .granted (literal "tcp://*:1") (.socket 0) _ _ _ rfl rfl rfl rfl

end ZmqOut.FanOut
