import ZmqOut.Truth

/-!
Which configuration the workers see. The handler is one for the whole run, but
what parseConfig reads goes into local variables that have the names of its
fields, so the handler keeps the values it was made with.
-/
namespace ZmqOut.Configuration
open ZmqOut.Runs ZmqOut.Variant ZmqOut.Server ZmqOut.Steps ZmqOut.Truth

def configOf : Event → Option QVariantMap
  | .command (.config m) _ => some m
  | _ => none

/-- The message of the most recent config. -/
def lastConfig (events : List Event) : Option QVariantMap := (events.filterMap configOf).getLast?

/-- The handler of the workers has the values of this message, and every step but another
    config leaves them alone. -/
structure Holds (qt : Qt) (m : QVariantMap) (p : Process) : Prop where
  configured : ∃ h, p.handler? p.server.m_handler = some h ∧ Configured qt m h
  used : ∀ w ∈ p.workers, w.handler = p.server.m_handler
  kept : ∀ event p', configOf event = none → step qt p event = some p' →
    p'.handler? p'.server.m_handler = p.handler? p.server.m_handler

/-- The message asks for the values that a new handler has. -/
def AsksForDefaults (qt : Qt) (m : QVariantMap) : Prop :=
  (m.value "unionall").toBool = false ∧ QString.Same none ((m.value "model_prefix").toString qt)

/-- There is a handler behind m_handler. -/
def Made (p : Process) : Prop := ∃ h, p.handler? p.server.m_handler = some h

/-- No handler has been configured, and the workers have the handler of the server. -/
structure Untouched (p : Process) : Prop where
  defaults : ∀ h ∈ p.heap, h.m_unionall = false ∧ h.m_model_prefix = none
  used : ∀ w ∈ p.workers, w.handler = p.server.m_handler ∧ p.server.m_handler ≠ 0

/-! ### One step -/

theorem construct_untouched (m_handler : Nat) (addr : { a : Nat // 0 < a }) : Untouched (construct m_handler addr) := by
  constructor
  · intro h member
    cases member
  · intro w member
    cases member

theorem handler_mem {p : Process} {a : Nat} {h : ZmqOutHandler} (found : p.handler? a = some h) : h ∈ p.heap := by
  cases a with
  | zero => cases found
  | succ k => exact List.mem_of_getElem? found

theorem untouched_frame {p p' : Process} (untouched : Untouched p) (heap : p'.heap = p.heap)
    (pointer : p'.server.m_handler = p.server.m_handler)
    (workers : p'.workers.map Worker.handler = p.workers.map Worker.handler) : Untouched p' := by
  refine ⟨heap ▸ untouched.defaults,?_⟩
  intro w member
  obtain ⟨v,there,same⟩ := worker_before workers member
  rw [pointer,← same]
  exact untouched.used v there

/-- A handler that config or start makes has the default values, and there is no worker
    before the first one is made. -/
theorem ensureHandler_untouched {p : Process} (memory : Nat) (untouched : Untouched p) :
    Untouched (p.ensureHandler memory) ∧ (p.ensureHandler memory).server.m_handler ≠ 0 := by
  by_cases null : p.server.m_handler = 0
  · obtain ⟨pointer,heap⟩ := ensureHandler_null p memory null
    refine ⟨⟨?_,?_⟩,by omega⟩
    · intro h member
      rw [heap] at member
      rcases List.mem_append.mp member with old | new
      · exact untouched.defaults h old
      · rw [List.mem_singleton.mp new]
        exact ⟨rfl,rfl⟩
    · intro w member
      rw [ensureHandler_workers] at member
      exact absurd null (untouched.used w member).2
  · rw [ensureHandler_set p memory null]
    exact ⟨untouched,null⟩

theorem step_untouched {qt : Qt} {p p' : Process} {event : Event} (untouched : Untouched p)
    (taken : step qt p event = some p') : Untouched p' := by
  cases step_cases taken with
  | config _ => exact (ensureHandler_untouched _ untouched).1
  | duplicate _ _ => exact untouched
  | register _ _ =>
    rw [register_eq]
    exact untouched_frame untouched rfl rfl rfl
  | @start m answers =>
    obtain ⟨ensured,positive⟩ := ensureHandler_untouched answers.memory untouched
    refine ⟨ensured.defaults,?_⟩
    intro w member
    rw [start_workers] at member
    rcases List.mem_append.mp member with old | new
    · exact ensured.used w (by rw [ensureHandler_workers]; exact old)
    · rw [List.mem_singleton.mp new]
      exact ⟨rfl,positive⟩
  | stop => exact untouched_frame untouched rfl rfl rfl
  | openPull there _ | connect there _ | options there _ | test there _ | timeout there _ | receive there _
  | handle there _ _ _ | closePull there _ | closeHandler there _ _ =>
    exact untouched_frame untouched rfl rfl (map_set_same there rfl)

/-- A handler behind m_handler stays there with its values. -/
theorem step_keeps {qt : Qt} {p p' : Process} {event : Event} (made : Made p) (taken : step qt p event = some p') :
    p'.handler? p'.server.m_handler = p.handler? p.server.m_handler := by
  have set : p.server.m_handler ≠ 0 := by
    intro null
    obtain ⟨h,found⟩ := made
    rw [null] at found
    cases found
  cases step_cases taken with
  | config _ => rw [ensureHandler_set _ _ set]
  | duplicate _ _ => rfl
  | register _ _ => rw [register_eq]; rfl
  | @start m answers =>
    rw [Process.start,ensureHandler_set _ _ set]
    rfl
  | stop | openPull _ _ | connect _ _ | options _ _ | test _ _ | timeout _ _ | receive _ _ | handle _ _ _ _
  | closePull _ _ | closeHandler _ _ _ => rfl

/-! ### Runs -/

theorem step_made {qt : Qt} {p p' : Process} {event : Event} (made : Made p) (taken : step qt p event = some p') :
    Made p' := by
  rw [Made,step_keeps made taken]
  exact made

/-- A run with a config in it leaves a handler behind m_handler. -/
theorem run_made {qt : Qt} {p p' : Process} {events : List Event} {m : QVariantMap}
    (executed : run (step qt) p events = some p') (last : lastConfig events = some m) : Made p' := by
  obtain ⟨event,listed,config⟩ := List.mem_filterMap.mp (List.mem_of_getLast? last)
  obtain ⟨before,after,rfl⟩ := List.append_of_mem listed
  obtain ⟨q,-,onward⟩ := run_append_some.mp executed
  obtain ⟨r,taken,later⟩ := run_cons_some.mp onward
  refine run_preserved (fun _ _ _ made taken => step_made made taken) ?_ later
  cases step_cases taken with
  | config found => exact ⟨_,found⟩
  | _ => cases config

/-- A configuration between a start and a stop, and a second start. -/
def restarted (m : QVariantMap) : List Event :=
  [.command (.start []) .granted,.command (.config m) .granted,.command .stop .granted,.command (.start []) .granted]

/-- The most recent configuration is the one the workers see, and stays so, exactly when it
    asks for the values that a handler has from the beginning. -/
theorem last_config_iff (qt : Qt) (m_handler : Nat) (addr : { a : Nat // 0 < a }) (events : List Event) (p : Process)
    (m : QVariantMap) (executed : run (step qt) (construct m_handler addr) events = some p)
    (last : lastConfig events = some m) : Holds qt m p ↔ AsksForDefaults qt m := by
  have untouched : Untouched p :=
    run_preserved (fun _ _ _ untouched taken => step_untouched untouched taken) (construct_untouched m_handler addr) executed
  have made := run_made executed last
  obtain ⟨h,found⟩ := made
  obtain ⟨unionall,prefixes⟩ := untouched.defaults h (handler_mem found)
  have configured : Configured qt m h ↔ AsksForDefaults qt m := by
    rw [Configured,AsksForDefaults,unionall,prefixes,eq_comm]
  constructor
  · rintro ⟨⟨h',found',sees⟩,-,-⟩
    rw [found] at found'
    cases found'
    exact configured.mp sees
  · intro asks
    refine ⟨⟨h,found,configured.mpr asks⟩,fun w member => (untouched.used w member).1,?_⟩
    intro event p' _ taken
    exact step_keeps ⟨h,found⟩ taken

/-- A configuration with the values of a new handler stays across a stop and a second start. -/
theorem default_config_holds : ∃ p, run (step (.table [])) (construct 0 ⟨1,Nat.one_pos⟩)
      (restarted [(key "unionall",.bool false),(key "model_prefix",.string [])]) = some p ∧
    Holds (.table []) [(key "unionall",.bool false),(key "model_prefix",.string [])] p := by
  refine ⟨_,rfl,(last_config_iff (.table []) 0 ⟨1,Nat.one_pos⟩
    (restarted [(key "unionall",.bool false),(key "model_prefix",.string [])]) _ _ rfl rfl).mpr ?_⟩
  exact ⟨rfl,rfl⟩

/-- No worker sees a configuration that asks for the union of all results. -/
theorem config_dropped : ∃ p, run (step (.table [])) (construct 0 ⟨1,Nat.one_pos⟩)
      (restarted [(key "unionall",.bool true)]) = some p ∧
    lastConfig (restarted [(key "unionall",.bool true)]) = some [(key "unionall",.bool true)] ∧
    ¬ Holds (.table []) [(key "unionall",.bool true)] p := by
  refine ⟨_,rfl,rfl,?_⟩
  rintro ⟨⟨h,found,unionall,-⟩,-,-⟩
  cases found
  exact absurd unionall (by decide)

end ZmqOut.Configuration
