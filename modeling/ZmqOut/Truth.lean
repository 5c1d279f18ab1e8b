import ZmqOut.Registry
import ZmqOut.Replies

/-!
When the reply 0 is true. It is what onReadyRead writes whatever the chunk is:
the switch has no default, no function of the server looks at a return code, and
none of them throws.
-/
namespace ZmqOut.Truth
open ZmqOut.Runs ZmqOut.Variant ZmqOut.Sockets ZmqOut.Server ZmqOut.Steps ZmqOut.Registry ZmqOut.Replies

/-- The commands that have a case in the switch. -/
def implemented : List (String × (QVariantMap → Command)) :=
  [("config",.config),("subscribe",.subscribe),("start",.start),("stop",fun _ => .stop)]

/-- The command that a message names by a string. -/
def named (msgMap : QVariantMap) : Option Command :=
  match msgMap.value "command" with
  | .string s => (implemented.find? fun entry => toUtf8 s = literal entry.1).map fun entry => entry.2 msgMap
  | _ => none

/-- The handler has the values of the message. -/
def Configured (qt : Qt) (configMap : QVariantMap) (h : ZmqOutHandler) : Prop :=
  h.m_unionall = (configMap.value "unionall").toBool ∧
    QString.Same h.m_model_prefix ((configMap.value "model_prefix").toString qt)

/-- The endpoint is registered and the socket beside it is bound to it. -/
def Serves (p : Process) (endpoint : StdString) : Prop :=
  ∃ (i : Nat) (s : VoidPtr), p.server.subscribers[i]? = some endpoint ∧ p.server.subscribers_sockets[i]? = some s ∧
    p.zmq.Bound s endpoint

/-- The command has taken place between the two states. -/
def TookPlace (qt : Qt) (p p' : Process) : Command → Prop
  | .config m => ∃ h, p'.handler? p'.server.m_handler = some h ∧ Configured qt m h
  | .subscribe m => Serves p' (Process.endpointOf qt m)
  | .start m => p'._stop = false ∧ p'.server.m_thread = some p.workers.length ∧
    p'.workers = p.workers ++ [⟨.socket,p.server.pull_context,Process.endpointOf qt m,p'.server.m_handler,.null⟩]
  | .stop => p'._stop = true ∧ p'.server.subscribers = [] ∧ p'.server.subscribers_sockets = [] ∧
    ∀ s ∈ p.server.subscribers_sockets, s ∈ p'.zmq.closes

def Done (qt : Qt) (chunk : List UInt8) (p p' : Process) : Prop :=
  ∃ fields c, qt.fromJson chunk = .object fields ∧ named fields = some c ∧ TookPlace qt p p' c

/-- The chunk is answered by 0 only if it is an implemented command that has taken
    place, and otherwise by something else, without any effect. -/
def Truthful (qt : Qt) (chunk : List UInt8) (answers : Answers) (p : Process) : Prop :=
  ∃ written p', onReadyRead qt chunk answers p = some (written,p') ∧ (written = [0] → Done qt chunk p p') ∧
    (¬ Done qt chunk p p' → written.head? ≠ some 0 ∧ p' = p)

/-- What the command needs to take place. -/
def Succeeds (qt : Qt) (p : Process) (answers : Answers) : Command → Prop
  | .config m => p.server.m_handler = 0 ∧ Configured qt m (.new answers.memory) ∨
    ∃ h, p.handler? p.server.m_handler = some h ∧ Configured qt m h
  | .subscribe m => Serves p (Process.endpointOf qt m) ∨
    Process.endpointOf qt m ∉ p.server.subscribers ∧ (p.server.subscribers = [] ∨ answers.pastEnd = false) ∧
      answers.socket = true ∧ answers.bind = true
  | .start _ | .stop => True

/-! ### Every reply is 0 -/

theorem execute_ok {qt : Qt} {c : Command} {answers : Answers} {p p' : Process} {r : Except Exn Unit}
    (executed : execute qt c answers p = some (r,p')) : r = .ok () := by
  cases c with
  | config m =>
    have called : p.config qt m answers = some (r,p') := executed
    exact (config_some.mp called).1
  | subscribe m | start m | stop => exact (Prod.mk.inj (Option.some.inj executed)).1.symm

theorem written_zero {qt : Qt} {chunk : List UInt8} {answers : Answers} {p p' : Process} {written : List UInt8}
    (read : onReadyRead qt chunk answers p = some (written,p')) : written = [0] := by
  rw [onReadyRead] at read
  split at read
  · cases read
    rfl
  · obtain ⟨⟨r,q⟩,executed,same⟩ := Option.map_eq_some_iff.mp read
    cases same
    rw [execute_ok executed]
    rfl

theorem truthful_done {qt : Qt} {chunk : List UInt8} {answers : Answers} {p : Process} :
    Truthful qt chunk answers p ↔ ∃ p', onReadyRead qt chunk answers p = some ([0],p') ∧ Done qt chunk p p' := by
  constructor
  · rintro ⟨written,p',read,success,-⟩
    have zero := written_zero read
    subst zero
    exact ⟨p',read,success rfl⟩
  · rintro ⟨p',read,success⟩
    exact ⟨[0],p',read,fun _ => success,fun fails => absurd success fails⟩

/-- A message that names a command executes it. -/
theorem dispatch_named {qt : Qt} {msgMap : QVariantMap} {c : Command} (names : named msgMap = some c) :
    dispatch (parseCommand (toStdString ((msgMap.value "command").toString qt))) msgMap = some c := by
  unfold named at names
  split at names
  · rename_i s command
    obtain ⟨entry,found,rfl⟩ := Option.map_eq_some_iff.mp names
    have spelled : toUtf8 s = literal entry.1 := by simpa using List.find?_some found
    have listed := List.mem_of_find?_eq_some found
    have text : toStdString ((msgMap.value "command").toString qt) = literal entry.1 := by
      rw [command,← spelled]
      rfl
    rw [text]
    simp only [implemented,List.mem_cons,List.not_mem_nil,or_false] at listed
    rcases listed with rfl | rfl | rfl | rfl <;> rfl
  · cases names

theorem read_named {qt : Qt} {chunk : List UInt8} {fields : QVariantMap} {c : Command} {answers : Answers} {p : Process}
    (object : qt.fromJson chunk = .object fields) (names : named fields = some c) :
    onReadyRead qt chunk answers p = (execute qt c answers p).map fun (result,p) => (reply result,p) := by
  have message : parseMessage qt chunk = fields := by rw [parseMessage,object]; rfl
  simp only [onReadyRead,message,dispatch_named names]

/-! ### What the commands leave behind -/

/-- Only sockets that exist have been bound. -/
def BindsCreated (p : Process) : Prop :=
  ∀ bind ∈ p.zmq.binds, bind.succeeded = true → ∃ k, bind.socket = .socket k ∧ k < p.zmq.created.length

theorem bindsCreated_frame {p p' : Process} (created : BindsCreated p) (binds : p'.zmq.binds = p.zmq.binds)
    (grown : p.zmq.created.length ≤ p'.zmq.created.length) : BindsCreated p' := by
  intro bind member succeeded
  rw [binds] at member
  obtain ⟨k,same,inside⟩ := created bind member succeeded
  exact ⟨k,same,Nat.lt_of_lt_of_le inside grown⟩

theorem register_binds (endpoint : StdString) (answers : Answers) (p : Process) :
    (p.register endpoint answers).zmq.binds =
      p.zmq.binds ++ [⟨newSocket answers p,c_str endpoint,answers.bind && newSocket answers p ≠ .null⟩] := by
  simp [register_eq,Zmq.zmq_bind]

theorem step_bindsCreated {qt : Qt} {p p' : Process} {event : Event} (created : BindsCreated p)
    (taken : step qt p event = some p') : BindsCreated p' := by
  have grown := step_created_le taken
  cases step_cases taken with
  | @register m answers _ _ =>
    intro bind member succeeded
    rw [register_binds] at member
    rcases List.mem_append.mp member with old | new
    · obtain ⟨k,same,inside⟩ := created bind old succeeded
      exact ⟨k,same,Nat.lt_of_lt_of_le inside grown⟩
    · rw [List.mem_singleton.mp new] at succeeded ⊢
      have nonnull : newSocket answers p ≠ .null := by simpa using (Bool.and_eq_true_iff.mp succeeded).2
      have returned := newSocket_ne_null.mp nonnull
      exact ⟨p.zmq.created.length,if_pos returned,by simp [register_eq,Zmq.zmq_socket_created,returned]⟩
  | config _ => exact bindsCreated_frame created (by simp) grown
  | duplicate _ _ => exact created
  | start => exact bindsCreated_frame created (by simp [Process.start]) grown
  | stop => exact bindsCreated_frame created (by simp) grown
  | openPull _ _ => exact bindsCreated_frame created (Zmq.zmq_socket_binds ..) grown
  | handle _ _ _ _ => exact bindsCreated_frame created (sendLoop_binds ..) grown
  | connect _ _ | options _ _ | test _ _ | timeout _ _ | receive _ _ | closePull _ _ | closeHandler _ _ _ =>
    exact bindsCreated_frame created rfl grown

theorem config_tookPlace {qt : Qt} {m : QVariantMap} {answers : Answers} {p p' : Process}
    (executed : execute qt (.config m) answers p = some (.ok (),p')) :
    TookPlace qt p p' (.config m) ↔ Succeeds qt p answers (.config m) := by
  have called : p.config qt m answers = some (.ok (),p') := executed
  obtain ⟨-,rfl,-⟩ := config_some.mp called
  simp only [TookPlace,Succeeds]
  by_cases null : p.server.m_handler = 0
  · obtain ⟨pointer,heap⟩ := ensureHandler_null p answers.memory null
    have made : (p.ensureHandler answers.memory).handler? (p.ensureHandler answers.memory).server.m_handler =
        some ⟨answers.memory,p.server.socketsAddr,false,none⟩ := by
      simp [pointer,Process.handler?,heap]
    have before : p.handler? 0 = none := rfl
    simp [made,before,null,Configured,ZmqOutHandler.new]
  · rw [ensureHandler_set p answers.memory null]
    simp [null]

theorem start_tookPlace (qt : Qt) (m : QVariantMap) (answers : Answers) (p : Process) :
    TookPlace qt p (p.start qt m answers) (.start m) := by
  refine ⟨rfl,?_,?_⟩
  · simp [Process.start]
  · rw [start_workers,newWorker,ensureHandler_pull]
    rfl

theorem stop_tookPlace (qt : Qt) (p : Process) : TookPlace qt p p.stop .stop := by
  refine ⟨rfl,rfl,rfl,?_⟩
  intro s listed
  rw [stop_closes]
  exact List.mem_append_right _ listed

/-- An endpoint that is registered for the first time is served when its socket is
    created and bound. -/
theorem register_serves {p : Process} {endpoint : StdString} {answers : Answers} (inv : InStep p)
    (created : BindsCreated p) (fresh : endpoint ∉ p.server.subscribers) :
    Serves (p.register endpoint answers) endpoint ↔ answers.socket = true ∧ answers.bind = true := by
  have subscribers : (p.register endpoint answers).server.subscribers = p.server.subscribers ++ [endpoint] := by
    rw [register_eq]
  have sockets : (p.register endpoint answers).server.subscribers_sockets =
      p.server.subscribers_sockets ++ [newSocket answers p] := by rw [register_eq]
  constructor
  · rintro ⟨i,s,at_i,at_s,bound⟩
    have last : i = p.server.subscribers.length := by
      rw [subscribers] at at_i
      by_contra other
      by_cases old : i < p.server.subscribers.length
      · rw [List.getElem?_append_left old] at at_i
        exact fresh (List.mem_of_getElem? at_i)
      · have inside := (List.getElem?_eq_some_iff.mp at_i).1
        rw [List.length_append,List.length_singleton] at inside
        omega
    have new : s = newSocket answers p := by
      rw [sockets,last,inv.aligned] at at_s
      simpa using at_s.symm
    rw [Zmq.Bound,register_binds,new] at bound
    rcases List.mem_append.mp bound with old | here
    · -- Nothing has been bound to a socket that did not exist.
      obtain ⟨k,(same : newSocket answers p = .socket k),inside⟩ := created _ old rfl
      have nonnull : newSocket answers p ≠ .null := by rw [same]; simp
      have returned := newSocket_ne_null.mp nonnull
      rw [newSocket,if_pos returned] at same
      cases same
      exact absurd inside (Nat.lt_irrefl _)
    · have both : (answers.bind && newSocket answers p ≠ .null) = true :=
        (congrArg Attachment.succeeded (List.mem_singleton.mp here)).symm
      obtain ⟨bind,nonnull⟩ := Bool.and_eq_true_iff.mp both
      exact ⟨newSocket_ne_null.mp (of_decide_eq_true nonnull),bind⟩
  · rintro ⟨returned,bind⟩
    have nonnull := newSocket_ne_null (p := p).mpr returned
    refine ⟨p.server.subscribers.length,newSocket answers p,?_,?_,?_⟩
    · simp [subscribers]
    · simp [sockets,inv.aligned]
    · rw [Zmq.Bound,register_binds]
      simp [bind,nonnull]

theorem subscribe_tookPlace {qt : Qt} {m : QVariantMap} {answers : Answers} {p : Process} (inv : InStep p)
    (created : BindsCreated p) :
    TookPlace qt p (p.subscribe qt m answers) (.subscribe m) ↔ Succeeds qt p answers (.subscribe m) := by
  simp only [TookPlace,Succeeds]
  by_cases member : Process.endpointOf qt m ∈ p.server.subscribers
  · have same : p.subscribe qt m answers = p := by
      rw [subscribe_eq,if_pos ⟨List.ne_nil_of_mem member,.inl member⟩]
    simp [same,member]
  · have unserved : ¬ Serves p (Process.endpointOf qt m) := by
      rintro ⟨i,s,at_i,-⟩
      exact member (List.mem_of_getElem? at_i)
    rw [subscribe_eq]
    split
    · rename_i again
      have stands : answers.pastEnd = true := again.2.resolve_left member
      simp [unserved,again.1,stands]
    · rename_i registers
      have distinguished : p.server.subscribers = [] ∨ answers.pastEnd = false := by
        by_contra neither
        obtain ⟨nonempty,stands⟩ := not_or.mp neither
        exact registers ⟨nonempty,.inr (by simpa using stands)⟩
      rw [register_serves inv created member]
      simp [unserved,member,distinguished]

theorem execute_tookPlace {qt : Qt} {c : Command} {answers : Answers} {p p' : Process} (inv : InStep p)
    (created : BindsCreated p) (executed : execute qt c answers p = some (.ok (),p')) :
    TookPlace qt p p' c ↔ Succeeds qt p answers c := by
  cases c with
  | config m => exact config_tookPlace executed
  | subscribe m =>
    cases executed
    exact subscribe_tookPlace inv created
  | start m =>
    cases executed
    exact iff_of_true (start_tookPlace qt m answers p) trivial
  | stop =>
    cases executed
    exact iff_of_true (stop_tookPlace qt p) trivial

/-- A command that has what it needs is defined. -/
theorem succeeds_executed {qt : Qt} {c : Command} {answers : Answers} {p : Process} (succeeds : Succeeds qt p answers c) :
    ∃ p', execute qt c answers p = some (.ok (),p') := by
  cases c with
  | config m =>
    show ∃ p', p.config qt m answers = some (.ok (),p')
    refine ⟨_,config_some.mpr ⟨rfl,rfl,?_⟩⟩
    rcases succeeds with ⟨null,-⟩ | ⟨h,found,-⟩
    · obtain ⟨pointer,heap⟩ := ensureHandler_null p answers.memory null
      exact ⟨⟨answers.memory,p.server.socketsAddr,false,none⟩,by simp [pointer,Process.handler?,heap]⟩
    · have set : p.server.m_handler ≠ 0 := by
        intro null
        rw [null] at found
        cases found
      rw [ensureHandler_set p answers.memory set]
      exact ⟨h,found⟩
  | subscribe m | start m | stop => exact ⟨_,rfl⟩

/-- In every reachable state a chunk is answered truthfully exactly when it is an
    object that names an implemented command and the command succeeds. -/
theorem truthful_iff (qt : Qt) (m_handler : Nat) (addr : { a : Nat // 0 < a }) (events : List Event) (p : Process)
    (executed : run (step qt) (construct m_handler addr) events = some p) (chunk : List UInt8) (answers : Answers) :
    Truthful qt chunk answers p ↔
      ∃ fields c, qt.fromJson chunk = .object fields ∧ named fields = some c ∧ Succeeds qt p answers c := by
  have inv : InStep p := run_inStep (construct_inStep m_handler addr) executed
  have created : BindsCreated p :=
    run_preserved (fun _ _ _ created taken => step_bindsCreated created taken)
      (fun bind member => by cases member) executed
  rw [truthful_done]
  constructor
  · rintro ⟨p',read,fields,c,object,names,tookPlace⟩
    rw [read_named object names] at read
    obtain ⟨⟨r,q⟩,called,same⟩ := Option.map_eq_some_iff.mp read
    obtain ⟨-,rfl⟩ := Prod.mk.inj same
    rw [execute_ok called] at called
    exact ⟨fields,c,object,names,(execute_tookPlace inv created called).mp tookPlace⟩
  · rintro ⟨fields,c,object,names,succeeds⟩
    obtain ⟨p',called⟩ := succeeds_executed succeeds
    refine ⟨p',?_,fields,c,object,names,(execute_tookPlace inv created called).mpr succeeds⟩
    rw [read_named object names,called]
    rfl

def subscribeText : StdString := literal "\x7b\"command\":\"subscribe\",\"endpoint\":\"tcp://*:1\"\x7d"

def subscribeMap : QVariantMap := [(key "command",.string (key "subscribe")),(key "endpoint",.string (key "tcp://*:1"))]

/-- A subscribe whose calls succeed. -/
theorem truthful_subscribe :
    Truthful (.table [(subscribeText,subscribeMap)]) subscribeText .granted (construct 0 ⟨1,Nat.one_pos⟩) := by
  refine (truthful_iff (.table [(subscribeText,subscribeMap)]) 0 ⟨1,Nat.one_pos⟩ [] _ rfl subscribeText .granted).mpr ?_
  exact ⟨subscribeMap,.subscribe subscribeMap,rfl,rfl,.inr ⟨by decide,.inl rfl,rfl,rfl⟩⟩

/-- Bytes that are no document are answered by 0. -/
theorem untruthful_chunk : onReadyRead (.table []) (literal "x") .granted (construct 0 ⟨1,Nat.one_pos⟩) =
    some ([0],construct 0 ⟨1,Nat.one_pos⟩) ∧
    ¬ Truthful (.table []) (literal "x") .granted (construct 0 ⟨1,Nat.one_pos⟩) := by
  refine ⟨rfl,?_⟩
  rintro ⟨written,p',read,success,-⟩
  have zero := written_zero read
  obtain ⟨fields,c,object,-⟩ := success zero
  cases object

end ZmqOut.Truth
