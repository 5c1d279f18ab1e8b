import Mathlib.Data.List.Basic
import Mathlib.Data.List.Infix

/-!
A tree of directories and files whose names and contents are arbitrary. A location
is the list of the names on the way to it, the innermost first, so that the
locations above it are its suffixes; a path is a list of steps from a location.
-/
namespace ZmqOut.FileTree
universe u v
variable {Name : Type u} {Content : Type v}

abbrev Location (Name : Type u) := List Name

inductive Node (Content : Type v) where
  | directory
  | file (content : Content)
deriving DecidableEq

/-- Whatever there is lies in a directory. -/
structure FileSystem (Name : Type u) (Content : Type v) where
  node : Location Name → Option (Node Content)
  root : node [] = some .directory
  parent : ∀ name above, node (name :: above) ≠ none → node above = some .directory

/-- One component of a path. -/
inductive Step (Name : Type u) where
  | stay
  | up
  | down (name : Name)
deriving DecidableEq

/-- The location above the root is the root. -/
def move : Location Name → Step Name → Location Name
  | here,.stay => here
  | here,.up => here.tail
  | here,.down name => name :: here

/-- Where a path leads, whatever is there. -/
def resolve (start : Location Name) (steps : List (Step Name)) : Location Name := steps.foldl move start

/-- The locations that a path leaves by a step. -/
def passed : Location Name → List (Step Name) → List (Location Name)
  | _,[] => []
  | here,step :: rest => here :: passed (move here step) rest

/-! ### Locations -/

theorem resolve_append (start : Location Name) (steps later : List (Step Name)) :
    resolve start (steps ++ later) = resolve (resolve start steps) later := List.foldl_append

theorem passed_append (start : Location Name) (steps later : List (Step Name)) :
    passed start (steps ++ later) = passed start steps ++ passed (resolve start steps) later := by
  induction steps generalizing start with
  | nil => rfl
  | cons step rest ih =>
    rw [List.cons_append,passed,passed,ih,List.cons_append]
    rfl

/-- One step leads to its own location or stays below or above the one that it leaves. -/
theorem suffix_move {here above : Location Name} {step : Step Name} (suffix : above <:+ move here step) :
    above = move here step ∨ above <:+ here := by
  cases step with
  | stay => exact .inr suffix
  | up => exact .inr (suffix.trans (List.tail_suffix here))
  | down name => exact List.suffix_cons_iff.mp suffix

/-- A path passes every location above its end that is not already above its start. -/
theorem suffix_passed {start above : Location Name} {steps : List (Step Name)} (suffix : above <:+ resolve start steps) :
    above <:+ start ∨ above = resolve start steps ∨ above ∈ passed start steps := by
  induction steps generalizing start with
  | nil => exact .inl suffix
  | cons step rest ih =>
    rcases ih suffix with above | same | listed
    · rcases suffix_move above with rfl | higher
      · cases rest with
        | nil => exact .inr (.inl rfl)
        | cons next rest => exact .inr (.inr (List.mem_cons_of_mem _ List.mem_cons_self))
      · exact .inl higher
    · exact .inr (.inl same)
    · exact .inr (.inr (List.mem_cons_of_mem _ listed))

/-- A path without a step up adds the same names wherever it starts. -/
theorem resolve_names {steps : List (Step Name)} (noUp : .up ∉ steps) :
    ∃ names : List Name, ∀ start, resolve start steps = names ++ start := by
  induction steps with
  | nil => exact ⟨[],fun _ => rfl⟩
  | cons step rest ih =>
    obtain ⟨names,leads⟩ := ih fun later => noUp (List.mem_cons_of_mem _ later)
    cases step with
    | stay => exact ⟨names,leads⟩
    | up => exact absurd List.mem_cons_self noUp
    | down name =>
      refine ⟨names ++ [name],?_⟩
      intro start
      rw [List.append_assoc]
      exact leads (name :: start)

/-- All that it passes lies above its end. -/
theorem passed_above {start m : Location Name} {steps : List (Step Name)} (noUp : .up ∉ steps)
    (passes : m ∈ passed start steps) : m <:+ resolve start steps := by
  induction steps generalizing start with
  | nil => cases passes
  | cons step rest ih =>
    rcases List.mem_cons.mp passes with rfl | later
    · obtain ⟨names,leads⟩ := resolve_names noUp
      rw [leads m]
      exact List.suffix_append names m
    · exact ih (fun up => noUp (List.mem_cons_of_mem _ up)) later

namespace FileSystem

/-- Something can be put here: the location lies in a directory and is none itself. -/
def Free (t : FileSystem Name Content) (here : Location Name) : Prop :=
  here ≠ [] ∧ t.node here.tail = some .directory ∧ t.node here ≠ some .directory

/-- Every location on the way is a directory or is missing and can be made. -/
def CanMake (t : FileSystem Name Content) (permits : Location Name → Bool) (here : Location Name) : Prop :=
  ∀ above, above <:+ here → t.node above = some .directory ∨ t.node above = none ∧ permits above

/-- The location is missing, lies on the way to another one and can be made. -/
def Makes (t : FileSystem Name Content) (permits : Location Name → Bool) (here m : Location Name) : Prop :=
  m <:+ here ∧ t.node m = none ∧ t.CanMake permits m

/-- Above a directory there are directories alone. -/
theorem directory_above {t : FileSystem Name Content} {here above : Location Name} (directory : t.node here = some .directory)
    (suffix : above <:+ here) : t.node above = some .directory := by
  induction here with
  | nil => rwa [List.suffix_nil.mp suffix]
  | cons name here ih =>
    rcases List.suffix_cons_iff.mp suffix with rfl | higher
    · exact directory
    · exact ih (t.parent name here (by rw [directory]; simp)) higher

theorem canMake_cons {t : FileSystem Name Content} {permits : Location Name → Bool} {name : Name} {above : Location Name} :
    t.CanMake permits (name :: above) ↔ t.CanMake permits above ∧
      (t.node (name :: above) = some .directory ∨ t.node (name :: above) = none ∧ permits (name :: above)) := by
  constructor
  · intro can
    exact ⟨fun m suffix => can m (suffix.trans (List.suffix_cons name above)),can _ List.suffix_rfl⟩
  · rintro ⟨can,last⟩ m suffix
    rcases List.suffix_cons_iff.mp suffix with rfl | higher
    · exact last
    · exact can m higher

/-- A tree in which what can be made on the way has been made has a directory exactly where
    every step can be made. -/
theorem directory_iff_canMake {t t' : FileSystem Name Content} {permits : Location Name → Bool} {here : Location Name}
    (made : t.Makes permits here here → t'.node here = some .directory)
    (kept : ¬ t.Makes permits here here → t'.node here = t.node here) :
    t'.node here = some .directory ↔ t.CanMake permits here := by
  by_cases makes : t.Makes permits here here
  · exact iff_of_true (made makes) makes.2.2
  · rw [kept makes]
    refine ⟨fun directory above suffix => .inl (directory_above directory suffix),fun can => ?_⟩
    rcases can here List.suffix_rfl with directory | ⟨missing,-⟩
    · exact directory
    · exact absurd ⟨List.suffix_rfl,missing,can⟩ makes

/-! ### Walks -/

section
variable [DecidableEq Content]

/-- The location of a path, when all that it passes are directories. -/
def walk (t : FileSystem Name Content) : Location Name → List (Step Name) → Option (Location Name)
  | here,[] => some here
  | here,step :: rest => if t.node here = some .directory then t.walk (move here step) rest else none

theorem walk_eq_some {t : FileSystem Name Content} {start here : Location Name} {steps : List (Step Name)} :
    t.walk start steps = some here ↔
      here = resolve start steps ∧ ∀ above ∈ passed start steps, t.node above = some .directory := by
  induction steps generalizing start with
  | nil => simp [walk,passed,resolve,eq_comm]
  | cons step rest ih =>
    rw [walk,passed,List.forall_mem_cons]
    by_cases directory : t.node start = some .directory
    · rw [if_pos directory,ih]
      exact ⟨fun ⟨ends,passes⟩ => ⟨ends,directory,passes⟩,fun ⟨ends,_,passes⟩ => ⟨ends,passes⟩⟩
    · rw [if_neg directory]
      exact ⟨nofun,fun ⟨_,first,_⟩ => absurd first directory⟩

/-- Where a walk ends without a directory, there is room for a file. -/
theorem walk_free {t : FileSystem Name Content} {start here : Location Name} {steps : List (Step Name)}
    (directory : t.node start = some .directory) (walks : t.walk start steps = some here)
    (other : t.node here ≠ some .directory) : t.Free here := by
  induction steps generalizing start with
  | nil =>
    cases walks
    exact absurd directory other
  | cons step rest ih =>
    rw [walk,if_pos directory] at walks
    cases rest with
    | nil =>
      cases walks
      cases step with
      | stay => exact absurd directory other
      | up => exact absurd (directory_above directory (List.tail_suffix start)) other
      | down name => exact ⟨List.cons_ne_nil name start,directory,other⟩
    | cons next rest =>
      refine ih ?_ walks
      by_contra missing
      rw [walk,if_neg missing] at walks
      cases walks

end

/-! ### What is put and made -/

section
variable [DecidableEq Name]

/-- The tree with this node at a location that is free. -/
def put (t : FileSystem Name Content) (here : Location Name) (x : Node Content) (free : t.Free here) :
    FileSystem Name Content where
  node := Function.update t.node here (some x)
  root := by rw [Function.update_of_ne (Ne.symm free.1),t.root]
  parent name above present := by
    have kept : t.node above = some .directory := by
      by_cases same : name :: above = here
      · subst same
        exact free.2.1
      · rw [Function.update_of_ne same] at present
        exact t.parent name above present
    have other : above ≠ here := by
      rintro rfl
      exact free.2.2 kept
    rw [Function.update_of_ne other,kept]

variable [DecidableEq Content] (t : FileSystem Name Content) (permits : Location Name → Bool)

instance (here : Location Name) : Decidable (t.Free here) := inferInstanceAs (Decidable (_ ∧ _ ∧ _))

/-- mkdir, which may be refused at a location. -/
def mkdir (here : Location Name) : FileSystem Name Content :=
  if free : t.Free here ∧ t.node here = none ∧ permits here then t.put here .directory free.1 else t

/-- mkdir at every location on the way that is missing. -/
def mkpath : Location Name → FileSystem Name Content
  | [] => t
  | name :: above => (mkpath above).mkdir permits (name :: above)

theorem mkdir_other {here m : Location Name} (other : m ≠ here) : (t.mkdir permits here).node m = t.node m := by
  rw [mkdir]
  split
  · exact Function.update_of_ne other ..
  · rfl

theorem mkdir_here (here : Location Name) : (t.mkdir permits here).node here =
    if t.Free here ∧ t.node here = none ∧ permits here then some .directory else t.node here := by
  rw [mkdir]
  split
  · exact Function.update_self ..
  · rfl

/-- mkpath makes a directory of every missing location on the way to which every step can be
    made, and changes nothing else. -/
theorem mkpath_node (here m : Location Name) :
    (t.Makes permits here m → (t.mkpath permits here).node m = some .directory) ∧
      (¬ t.Makes permits here m → (t.mkpath permits here).node m = t.node m) := by
  induction here generalizing m with
  | nil =>
    refine ⟨?_,fun _ => rfl⟩
    rintro ⟨suffix,missing,-⟩
    rw [List.suffix_nil.mp suffix,t.root] at missing
    cases missing
  | cons name above ih =>
    by_cases same : m = name :: above
    · subst same
      have below : ¬ name :: above <:+ above := by
        intro suffix
        exact absurd suffix.length_le (by simp)
      have before := (ih (name :: above)).2 fun makes => below makes.1
      have reached := directory_iff_canMake (ih above).1 (ih above).2
      have makes : ((t.mkpath permits above).Free (name :: above) ∧ (t.mkpath permits above).node (name :: above) = none ∧
          permits (name :: above)) ↔ t.Makes permits (name :: above) (name :: above) := by
        rw [before]
        constructor
        · rintro ⟨⟨-,directory,-⟩,missing,permitted⟩
          exact ⟨List.suffix_rfl,missing,canMake_cons.mpr ⟨reached.mp directory,.inr ⟨missing,permitted⟩⟩⟩
        · rintro ⟨-,missing,can⟩
          obtain ⟨higher,last⟩ := canMake_cons.mp can
          refine ⟨⟨List.cons_ne_nil name above,reached.mpr higher,by rw [before,missing]; simp⟩,missing,?_⟩
          rcases last with directory | ⟨-,permitted⟩
          · rw [missing] at directory
            cases directory
          · exact permitted
      rw [mkpath,mkdir_here]
      refine ⟨fun made => if_pos (makes.mpr made),fun kept => ?_⟩
      rw [if_neg (fun made => kept (makes.mp made)),before]
    · have narrower : t.Makes permits (name :: above) m ↔ t.Makes permits above m := by
        rw [Makes,Makes,List.suffix_cons_iff,or_iff_right same]
      rw [mkpath,mkdir_other _ _ same,narrower]
      exact ih m

end

end FileSystem
end ZmqOut.FileTree
