import ZmqOut.Runs
import ZmqOut.Steps

/-!
How many workers there are and whether a stop reaches them. All workers poll one
global flag, stop sets it, start clears it and adds a worker; nothing waits for
a worker to end.
-/
namespace ZmqOut.Workers
open ZmqOut.Runs ZmqOut.DataStream ZmqOut.Variant ZmqOut.Sockets ZmqOut.Server ZmqOut.Steps

/-- The positions that one step of a worker connects while the flag has this value. -/
inductive Moves (stop : Bool) : WorkerPc → WorkerPc → Prop where
  | opens : Moves stop .socket .connect
  | connects : Moves stop .connect .options
  | sets : Moves stop .options .test
  | tests : Moves stop .test (if stop then .closePull else .recv)
  | expires : Moves stop .recv .test
  | receives (df : data_frame) : Moves stop .recv (.handle df)
  | handles (df : data_frame) : Moves stop (.handle df) .test
  | closes : Moves stop .closePull .closeHandler
  | ends : Moves stop .closeHandler .done

/-- What a step does to the flag, the thread pointer and the workers. -/
inductive Effect (p p' : Process) : Event → Prop where
  | start {m : QVariantMap} {answers : Answers} {w : Worker} (flag : p'._stop = false)
      (thread : p'.server.m_thread = some p.workers.length) (workers : p'.workers = p.workers ++ [w])
      (pc : w.pc = .socket) : Effect p p' (.command (.start m) answers)
  | stop {answers : Answers} (flag : p'._stop = true) (thread : p'.server.m_thread = p.server.m_thread)
      (workers : p'.workers = p.workers) : Effect p p' (.command .stop answers)
  | other {c : Command} {answers : Answers} (flag : p'._stop = p._stop)
      (thread : p'.server.m_thread = p.server.m_thread) (workers : p'.workers = p.workers) :
      Effect p p' (.command c answers)
  | worker {k : Nat} {input : Input} {w w' : Worker} (there : p.workers[k]? = some w)
      (flag : p'._stop = p._stop) (thread : p'.server.m_thread = p.server.m_thread)
      (workers : p'.workers = p.workers.set k w') (moves : Moves p._stop w.pc w'.pc) :
      Effect p p' (.worker k input)

theorem step_effect {qt : Qt} {p p' : Process} {event : Event} (taken : step qt p event = some p') :
    Effect p p' event := by
  cases step_cases taken with
  | config _ => exact .other (by simp) (by simp) (by simp)
  | duplicate _ _ => exact .other rfl rfl rfl
  | register _ _ =>
    rw [register_eq]
    exact .other rfl rfl rfl
  | start => exact .start rfl (by simp [Process.start]) (start_workers ..) rfl
  | stop => exact .stop rfl rfl rfl
  | openPull there pc => exact .worker there rfl rfl rfl (pc ▸ .opens)
  | connect there pc => exact .worker there rfl rfl rfl (pc ▸ .connects)
  | options there pc => exact .worker there rfl rfl rfl (pc ▸ .sets)
  | test there pc => exact .worker there rfl rfl rfl (pc ▸ .tests)
  | timeout there pc => exact .worker there rfl rfl rfl (pc ▸ .expires)
  | receive there pc => exact .worker there rfl rfl rfl (pc ▸ .receives _)
  | handle there pc _ _ => exact .worker there rfl rfl rfl (pc ▸ .handles _)
  | closePull there pc => exact .worker there rfl rfl rfl (pc ▸ .closes)
  | closeHandler there pc _ => exact .worker there rfl rfl rfl (pc ▸ .ends)

/-- The do_start of thread `k` has not returned. -/
def Alive (p : Process) (k : Nat) : Prop := ∃ w, p.workers[k]? = some w ∧ w.pc ≠ .done

/-! ### At most one worker -/

/-- The next step of worker `k` calls handle or close of its handler. -/
def CallsHandler (p : Process) (k : Nat) : Prop :=
  ∃ w, p.workers[k]? = some w ∧ ((∃ df, w.pc = .handle df) ∨ w.pc = .closeHandler)

/-- At most one worker is alive, m_thread denotes it, and while a worker is about to
    call handle, with its sends, or close, every other one has ended. -/
structure OneWorker (p : Process) : Prop where
  alone : ∀ j k, Alive p j → Alive p k → j = k
  thread : ∀ k, Alive p k → p.server.m_thread = some k
  exclusive : ∀ j k, CallsHandler p j → Alive p k → j = k

/-- A start is executed when no worker is alive. -/
def StartsIdle (p : Process) : Event → Prop
  | .command (.start _) _ => ∀ k, ¬ Alive p k
  | _ => True

theorem alive_of_calls {p : Process} {k : Nat} (calls : CallsHandler p k) : Alive p k := by
  obtain ⟨w,there,⟨df,pc⟩ | pc⟩ := calls
  · exact ⟨w,there,by simp [pc]⟩
  · exact ⟨w,there,by simp [pc]⟩

theorem oneWorker_of_thread {p : Process} (thread : ∀ k, Alive p k → p.server.m_thread = some k) : OneWorker p := by
  have alone : ∀ j k, Alive p j → Alive p k → j = k := by
    intro j k first second
    exact Option.some.inj ((thread j first).symm.trans (thread k second))
  exact ⟨alone,thread,fun j k calls alive => alone j k (alive_of_calls calls) alive⟩

/-- A worker that a step leaves alive was alive before or is the one it started. -/
theorem alive_before {p p' : Process} {event : Event} {k : Nat} (effect : Effect p p' event) (alive : Alive p' k) :
    Alive p k ∨ p'.server.m_thread = some k ∧ ∃ m answers, event = .command (.start m) answers := by
  obtain ⟨w,there,pc⟩ := alive
  cases effect with
  | @start m answers v flag thread workers _ =>
    rw [workers] at there
    by_cases old : k < p.workers.length
    · rw [List.getElem?_append_left old] at there
      exact .inl ⟨w,there,pc⟩
    · have inside := (List.getElem?_eq_some_iff.mp there).1
      rw [List.length_append,List.length_singleton] at inside
      exact .inr ⟨by rw [thread,show p.workers.length = k by omega],m,answers,rfl⟩
  | stop _ _ workers | other _ _ workers =>
    rw [workers] at there
    exact .inl ⟨w,there,pc⟩
  | @worker j _ v v' listed _ _ workers moves =>
    rw [workers] at there
    by_cases same : j = k
    · subst same
      refine .inl ⟨v,listed,?_⟩
      intro ended
      rw [ended] at moves
      cases moves
    · rw [List.getElem?_set_ne same] at there
      exact .inl ⟨w,there,pc⟩

theorem step_oneWorker {qt : Qt} {p p' : Process} {event : Event} (inv : OneWorker p) (idle : StartsIdle p event)
    (taken : step qt p event = some p') : OneWorker p' := by
  have effect := step_effect taken
  apply oneWorker_of_thread
  intro k alive
  rcases alive_before effect alive with before | ⟨started,-⟩
  · cases effect with
    | start _ _ _ _ => exact absurd before (idle k)
    | stop _ thread _ | other _ thread _ | worker _ _ thread _ _ =>
      rw [thread]
      exact inv.thread k before
  · exact started

/-- A start that is executed while a worker is alive makes a second one. -/
theorem start_adds_worker (qt : Qt) {p : Process} (m : QVariantMap) (answers : Answers) {k : Nat}
    (alive : Alive p k) : ¬ OneWorker (p.start qt m answers) := by
  intro one
  obtain ⟨w,there,pc⟩ := alive
  have inside := (List.getElem?_eq_some_iff.mp there).1
  have old : Alive (p.start qt m answers) k := by
    exact ⟨w,by rw [start_workers,List.getElem?_append_left inside,there],pc⟩
  have new : Alive (p.start qt m answers) p.workers.length :=
    ⟨newWorker qt m answers p,by simp [start_workers],by simp [newWorker]⟩
  have same := one.alone _ _ old new
  omega

/-- At most one worker is alive throughout a run exactly when each of its starts is
    executed while none is. -/
theorem one_worker_iff (qt : Qt) (m_handler : Nat) (addr : { a : Nat // 0 < a }) (events : List Event) :
    (∀ p, Visits (step qt) (construct m_handler addr) events p → OneWorker p) ↔
      Meets (step qt) StartsIdle (construct m_handler addr) events := by
  refine visits_iff_meets (fun _ => True) (fun _ _ _ _ _ => trivial) ?_ ?_ trivial ?_
  · exact fun _ _ _ _ one idle taken => step_oneWorker one idle taken
  · intro p event _ _ busy
    cases event with
    | worker k input => exact absurd trivial busy
    | command c answers =>
      cases c with
      | config m | subscribe m | stop => exact absurd trivial busy
      | start m =>
        obtain ⟨k,alive⟩ := not_forall_not.mp busy
        exact ⟨p.start qt m answers,rfl,start_adds_worker qt m answers alive⟩
  · apply oneWorker_of_thread
    rintro k ⟨w,there,-⟩
    simp [construct] at there

/-- Two starts in a row leave two workers in their loops. -/
theorem two_workers_alive : ∃ p, run (step (.table [])) (construct 0 ⟨1,Nat.one_pos⟩)
    [.command (.start []) .granted,.command (.start []) .granted] = some p ∧ ¬ OneWorker p := by
  refine ⟨_,rfl,?_⟩
  intro one
  have same : 0 = 1 := one.alone 0 1 ⟨_,rfl,by decide⟩ ⟨_,rfl,by decide⟩
  cases same

/-! ### Stops that reach their workers -/

/-- The worker has not left its loop. -/
def inLoop : WorkerPc → Bool
  | .closePull | .closeHandler | .done => false
  | _ => true

def handles : WorkerPc → Bool
  | .handle _ => true
  | _ => false

/-- How many frames a worker at this position still handles while the flag is set. -/
def pending : WorkerPc → Nat
  | .recv | .handle _ => 1
  | _ => 0

/-- How many steps a worker at this position takes at most to leave its loop while
    the flag is set. -/
def distance : WorkerPc → Nat
  | .socket => 4
  | .connect => 3
  | .options => 2
  | .test => 1
  | .recv => 3
  | .handle _ | .guard _ | .loop _ _ | .fetch _ _ | .send _ _ _ => 2
  | .closePull | .closeHandler | .done => 0

theorem pending_le (pc : WorkerPc) : pending pc ≤ 1 := by
  cases pc <;> simp [pending]

theorem distance_le (pc : WorkerPc) : distance pc ≤ 4 := by
  cases pc <;> simp [distance]

theorem distance_pos {pc : WorkerPc} (looping : inLoop pc) : 0 < distance pc := by
  cases pc <;> simp_all [distance,inLoop]

def InLoop (p : Process) (k : Nat) : Prop := ∃ w, p.workers[k]? = some w ∧ inLoop w.pc

/-- A start is executed after a stop only when worker `k` has left its loop. -/
def KeepsStop (k : Nat) (p : Process) : Event → Prop
  | .command (.start _) _ => p._stop = true → ¬ InLoop p k
  | _ => True

/-- The position that worker `k` takes this step from. -/
def stepsFrom (k : Nat) (p : Process) : Event → List WorkerPc
  | .worker j _ => if j = k then (p.workers[k]?.map Worker.pc).toList else []
  | _ => []

/-- Worker `k` is stopping: as long as it is in its loop the flag is set, and what it
    has done since the stop leaves room for what it may still do. -/
def Stopping (k : Nat) (seen : List WorkerPc) (p : Process) : Prop :=
  ∃ w, p.workers[k]? = some w ∧
    (inLoop w.pc → p._stop = true ∧ seen.length + distance w.pc ≤ 4) ∧
    seen.countP handles + pending w.pc ≤ 1

/-- One step of the worker itself while it is stopping. -/
theorem moves_stopping {stop : Bool} {pc pc' : WorkerPc} {seen : List WorkerPc} (moves : Moves stop pc pc')
    (told : inLoop pc → stop = true ∧ seen.length + distance pc ≤ 4)
    (frames : seen.countP handles + pending pc ≤ 1) :
    (inLoop pc' → stop = true ∧ (seen ++ [pc]).length + distance pc' ≤ 4) ∧
      (seen ++ [pc]).countP handles + pending pc' ≤ 1 := by
  rw [List.length_append,List.length_singleton,List.countP_append,List.countP_singleton]
  cases moves with
  | tests =>
    obtain ⟨rfl,-⟩ := told rfl
    exact ⟨nofun,frames⟩
  | closes | ends => exact ⟨nofun,frames⟩
  | opens | connects | sets | expires | receives df | handles df =>
    obtain ⟨flag,room⟩ := told rfl
    simp only [distance,pending,handles,Bool.false_eq_true,↓reduceIte] at room frames ⊢
    exact ⟨fun _ => ⟨flag,by omega⟩,by omega⟩

theorem step_stopping {qt : Qt} {k : Nat} {seen : List WorkerPc} {p p' : Process} {event : Event}
    (stopping : Stopping k seen p) (keeps : KeepsStop k p event) (taken : step qt p event = some p') :
    Stopping k (seen ++ stepsFrom k p event) p' := by
  obtain ⟨w,there,told,frames⟩ := stopping
  have inside := (List.getElem?_eq_some_iff.mp there).1
  cases step_effect taken with
  | start _ _ workers _ =>
    simp only [stepsFrom,List.append_nil]
    refine ⟨w,by rw [workers,List.getElem?_append_left inside,there],?_,frames⟩
    intro looping
    exact absurd ⟨w,there,looping⟩ (keeps (told looping).1)
  | stop flag _ workers =>
    simp only [stepsFrom,List.append_nil]
    exact ⟨w,by rw [workers,there],fun looping => ⟨flag,(told looping).2⟩,frames⟩
  | other flag _ workers =>
    simp only [stepsFrom,List.append_nil]
    exact ⟨w,by rw [workers,there],fun looping => ⟨flag.trans (told looping).1,(told looping).2⟩,frames⟩
  | @worker j _ v v' listed flag _ workers moves =>
    by_cases same : j = k
    · subst same
      rw [there] at listed
      cases listed
      refine ⟨v',by rw [workers,List.getElem?_set_self inside],?_⟩
      rw [flag]
      simpa [stepsFrom,there] using moves_stopping moves told frames
    · simp only [stepsFrom,if_neg same,List.append_nil]
      refine ⟨w,by rw [workers,List.getElem?_set_ne same,there],?_,frames⟩
      exact fun looping => ⟨flag.trans (told looping).1,(told looping).2⟩

/-- A worker that is alive when a stop completes handles at most one more frame and has
    left its loop after four steps of its own, in the runs in which no start that finds the
    flag set is executed before this worker has left its loop. -/
theorem stop_reaches_workers (qt : Qt) (m_handler : Nat) (addr : { a : Nat // 0 < a }) (before after : List Event)
    (answers : Answers) (p q : Process) (k : Nat)
    (stopped : run (step qt) (construct m_handler addr) (before ++ [.command .stop answers]) = some p)
    (alive : Alive p k) (keeps : Meets (step qt) (KeepsStop k) p after) (executed : run (step qt) p after = some q) :
    (trace (step qt) (stepsFrom k) p after).countP handles ≤ 1 ∧
      (4 ≤ (trace (step qt) (stepsFrom k) p after).length → ¬ InLoop q k) := by
  obtain ⟨r,-,last⟩ := run_append_some.mp stopped
  obtain ⟨p',taken,same⟩ := run_cons_some.mp last
  cases same
  have flag : p._stop = true := by
    cases step_cases taken
    rfl
  obtain ⟨w,there,-⟩ := alive
  have start : Stopping k [] p :=
    ⟨w,there,fun _ => ⟨flag,by simpa using distance_le w.pc⟩,by simpa using pending_le w.pc⟩
  have advance : ∀ seen p event p', Stopping k seen p → KeepsStop k p event → step qt p event = some p' →
      Stopping k (seen ++ stepsFrom k p event) p' := fun _ _ _ _ => step_stopping
  obtain ⟨v,listed,told,frames⟩ := run_history advance [] start keeps executed
  rw [List.nil_append] at told frames
  refine ⟨Nat.le_of_add_right_le frames,?_⟩
  rintro many ⟨v',listed',looping⟩
  rw [listed] at listed'
  cases listed'
  have room := (told looping).2
  have left := distance_pos looping
  omega

/-- A start that is executed too early leaves the flag clear, and then nothing bounds
    the frames that a worker handles. -/
theorem released_worker_handles {qt : Qt} {p : Process} {k : Nat} {w : Worker} {h : ZmqOutHandler} (bytes : List UInt8)
    (n : Nat) (there : p.workers[k]? = some w) (pc : w.pc = .test) (found : p.handler? w.handler = some h)
    (vector : h.subscribers_sockets = p.server.socketsAddr) (flag : p._stop = false) :
    ∃ q, run (step qt) p (List.replicate (3 * n) (.worker k (.granted (some bytes)))) = some q ∧
      (trace (step qt) (stepsFrom k) p (List.replicate (3 * n) (.worker k (.granted (some bytes))))).countP handles = n ∧
      InLoop q k := by
  induction n generalizing p w with
  | zero => exact ⟨p,rfl,rfl,w,there,by rw [pc]; rfl⟩
  | succ n ih =>
    have inside := (List.getElem?_eq_some_iff.mp there).1
    let df := (decode bytes).1
    let p₁ := setWorker k { w with pc := .recv } p
    let p₂ := setWorker k { w with pc := .handle df } p₁
    let p₃ := setWorker k { w with pc := .test }
      { p₂ with zmq := Process.sendLoop (payload qt 0) (fun _ => 0) 0 p.server.subscribers_sockets p.zmq }
    have there₁ : p₁.workers[k]? = some { w with pc := .recv } := setWorker_get inside
    have there₂ : p₂.workers[k]? = some { w with pc := .handle df } :=
      setWorker_get (List.getElem?_eq_some_iff.mp there₁).1
    have tests : step qt p (.worker k (.granted (some bytes))) = some p₁ := by
      simp only [step_worker there,do_start,pc,flag,Bool.false_eq_true,↓reduceIte,Option.map_some]
      rfl
    have receives : step qt p₁ (.worker k (.granted (some bytes))) = some p₂ := by
      rw [step_worker there₁]
      rfl
    have handled : step qt p₂ (.worker k (.granted (some bytes))) = some p₃ :=
      step_handle there₂ rfl found vector (.granted (some bytes))
    have there₃ : p₃.workers[k]? = some { w with pc := .test } :=
      setWorker_get (List.getElem?_eq_some_iff.mp there₂).1
    obtain ⟨q,executed,counted,looping⟩ := ih there₃ rfl found vector flag
    have unrolled : List.replicate (3 * (n + 1)) (Event.worker k (.granted (some bytes))) =
        .worker k (.granted (some bytes)) :: .worker k (.granted (some bytes)) :: .worker k (.granted (some bytes)) ::
          List.replicate (3 * n) (.worker k (.granted (some bytes))) := rfl
    rw [unrolled]
    refine ⟨q,?_,?_,looping⟩
    · rw [run_taken tests,run_taken receives,run_taken handled]
      exact executed
    · simp only [trace,tests,receives,handled,List.countP_append,counted]
      simp only [stepsFrom,there,there₁,there₂,pc,↓reduceIte,Option.map_some,Option.toList_some,List.countP_singleton,
        handles,Bool.false_eq_true]
      omega

/-- A stop that reaches a worker in its receive, and a start when it has left. -/
theorem stop_reaches_worker_in_recv : ∃ p q,
    run (step (.table [])) (construct 0 ⟨1,Nat.one_pos⟩)
      ([.command (.start []) .granted] ++ polls (some (data_frame.write ⟨none,none⟩)) 4 ++ [.command .stop .granted]) = some p ∧
    run (step (.table [])) p (polls (some (data_frame.write ⟨none,none⟩)) 3 ++ [.command (.start []) .granted]) = some q ∧
    (trace (step (.table [])) (stepsFrom 0) p
      (polls (some (data_frame.write ⟨none,none⟩)) 3 ++ [.command (.start []) .granted])).countP handles ≤ 1 := by
  refine ⟨_,_,rfl,rfl,?_⟩
  refine (stop_reaches_workers (.table []) 0 ⟨1,Nat.one_pos⟩
    ([.command (.start []) .granted] ++ polls (some (data_frame.write ⟨none,none⟩)) 4)
    (polls (some (data_frame.write ⟨none,none⟩)) 3 ++ [.command (.start []) .granted])
    .granted _ _ 0 rfl ⟨_,rfl,by decide⟩ ?_ rfl).1
  refine ⟨trivial,fun _ first => ⟨trivial,fun _ second => ⟨trivial,fun _ third => ⟨?_,fun _ _ => trivial⟩⟩⟩⟩
  cases first
  cases second
  cases third
  rintro - ⟨w,there,looping⟩
  cases there
  cases looping

/-- A start executed while the stopped worker is still in its receive makes it
    handle frame after frame. -/
theorem stop_lost : ∃ p q,
    run (step (.table [])) (construct 0 ⟨1,Nat.one_pos⟩)
      ([.command (.start []) .granted] ++ polls none 4 ++ [.command .stop .granted]) = some p ∧ Alive p 0 ∧
    run (step (.table [])) p ([.command (.start []) .granted] ++ polls (some (data_frame.write ⟨none,none⟩)) 6) = some q ∧
    (trace (step (.table [])) (stepsFrom 0) p
      ([.command (.start []) .granted] ++ polls (some (data_frame.write ⟨none,none⟩)) 6)).countP handles = 2 ∧ InLoop q 0 := by
  exact ⟨_,_,rfl,⟨_,rfl,by decide⟩,rfl,by decide,⟨_,rfl,by decide⟩⟩

end ZmqOut.Workers
