import Mathlib.Data.List.TakeWhile
import ZmqOut.Variant

/-!
The options of main. The test that is to keep the loop inside argv compares with
<= and never fails, and the number goes through std::stoi and then, unlooked at,
into the 16 bits of a port.
-/
namespace ZmqOut.Options
open ZmqOut.Variant

/-! ### std::stoi -/

/-- What std::stoi throws; main catches neither. -/
inductive StoiError where
  | invalid_argument
  | out_of_range
deriving DecidableEq, Repr

/-- isspace in the C locale. -/
def isSpace (c : UInt8) : Bool := c == 32 || (9 ≤ c && c ≤ 13)
def isDigit (c : UInt8) : Bool := 48 ≤ c && c ≤ 57

/-- The number that decimal digits denote. -/
def natural (digits : StdString) : Nat := digits.foldl (fun n c => n * 10 + (c.toNat - 48)) 0

/-- Whether there is a minus sign, and what follows the sign. -/
def splitSign : StdString → Bool × StdString
  | 45 :: rest => (true,rest)
  | 43 :: rest => (false,rest)
  | s => (false,s)

def signed (minus : Bool) (n : Nat) : Int := if minus then -n else n

/-- std::stoi takes the digits at the front of the string and ignores what follows. -/
def stoi (s : StdString) : Except StoiError Int :=
  let (minus,s) := splitSign (s.dropWhile isSpace)
  let digits := s.takeWhile isDigit
  if digits = [] then .error .invalid_argument
  else if -(2 ^ 31) ≤ signed minus (natural digits) ∧ signed minus (natural digits) < 2 ^ 31 then
    .ok (signed minus (natural digits))
  else .error .out_of_range

/-! ### The loop -/

/-- How main goes on. -/
inductive Outcome where
  /-- show_usage, then this status is returned. -/
  | usage (status : Int)
  | returns (status : Int)
  /-- An exception leaves main. -/
  | throws (e : StoiError)
  /-- A std::string is constructed from what is behind the arguments. -/
  | pastEnd
  /-- The server is started; this is the port that QTcpServer::listen gets. -/
  | listens (port : Int)
deriving DecidableEq, Repr

def isHelp (arg : StdString) : Bool := arg == literal "-h" || arg == literal "--help"
def isPort (arg : StdString) : Bool := arg == literal "-p" || arg == literal "--port"

/-- The loop from index `i`, where the arguments from there on are in the list. With the
    outcome come the indices at which argv is read. -/
def optionLoop (argc : Nat) : Nat → List StdString → Int → List Nat × Outcome
  | _,[],port => ([],.listens (port % 2 ^ 16))
  | i,arg :: rest,port =>
    if isHelp arg then ([i,0],.usage 0)
    else if isPort arg then
      if i + 1 ≤ argc then
        match rest with
        | [] => ([i,i + 1],.pastEnd)
        | value :: rest =>
          match stoi value with
          | .error e => ([i,i + 1],.throws e)
          | .ok port =>
            let (reads,outcome) := optionLoop argc (i + 2) rest port
            (i :: (i + 1) :: reads,outcome)
      else ([i],.returns (-1))
    else
      let (reads,outcome) := optionLoop argc (i + 1) rest port
      (i :: reads,outcome)

/-- main up to the call of listen; the length of the list is argc. -/
def main (argv : List StdString) : List Nat × Outcome :=
  if argv.length < 3 then ([0],.usage (-1)) else optionLoop argv.length 1 argv.tail 8080

/-! ### What is asked of it -/

/-- The integer that a whole string denotes. -/
def decimal (s : StdString) : Option Int :=
  let (minus,digits) := splitSign s
  if digits ≠ [] ∧ digits.all isDigit then some (signed minus (natural digits)) else none

/-- The port that the argument after an option gives. -/
def portOf (value : Option StdString) : Option Int :=
  (value.bind decimal).filter fun n => 0 ≤ n && n < 2 ^ 16

/-- What stands behind every port option that comes before the first help option. -/
def given : List StdString → List (Option StdString)
  | [] => []
  | arg :: rest =>
    if isHelp arg then []
    else if isPort arg then
      match rest with
      | [] => [none]
      | value :: rest => some value :: given rest
    else given rest

/-- A help option comes up. -/
def asksHelp : List StdString → Bool
  | [] => false
  | arg :: rest =>
    if isHelp arg then true
    else if isPort arg then
      match rest with
      | [] => false
      | _ :: rest => asksHelp rest
    else asksHelp rest

/-- -1 for a port option without a port, else the usage if it is asked for, else the last
    port that is given. -/
def wanted (args : List StdString) : Outcome :=
  if (given args).all fun value => (portOf value).isSome then
    if asksHelp args then .usage 0 else .listens (((given args).filterMap portOf).getLast?.getD 8080)
  else .returns (-1)

/-- main reads its arguments alone and goes on as it should. -/
def Obeys (argv : List StdString) : Prop :=
  (∀ j ∈ (main argv).1, j < argv.length) ∧ (main argv).2 = wanted argv.tail

/-- Every port option that is met has a port behind it. -/
def PortsGiven (argv : List StdString) : Prop := ∀ value ∈ given argv.tail, (portOf value).isSome

/-! ### Decimal numbers -/

theorem isDigit_not_space {c : UInt8} (digit : isDigit c) : isSpace c = false := by
  simp only [isDigit,Bool.and_eq_true,decide_eq_true_eq] at digit
  have above : ¬ c ≤ 13 := by
    intro below
    exact absurd (UInt8.le_trans digit.1 below) (by decide)
  have other : c ≠ 32 := by
    rintro rfl
    exact absurd digit.1 (by decide)
  simp [isSpace,above,other]

/-- There is no space in front of a number. -/
theorem dropWhile_space {s : StdString} (nonempty : (splitSign s).2 ≠ []) (digits : (splitSign s).2.all isDigit) :
    s.dropWhile isSpace = s := by
  fun_cases splitSign s with
  | case1 rest => exact List.dropWhile_cons_of_neg (by decide)
  | case2 rest => exact List.dropWhile_cons_of_neg (by decide)
  | case3 _ noMinus noPlus =>
    rw [splitSign.eq_3 s noMinus noPlus] at nonempty digits
    cases s with
    | nil => rfl
    | cons c rest =>
      have digit : isDigit c := List.all_eq_true.mp digits c List.mem_cons_self
      exact List.dropWhile_cons_of_neg (by simp [isDigit_not_space digit])

theorem decimal_some {s : StdString} {n : Int} (denotes : decimal s = some n) :
    (splitSign s).2 ≠ [] ∧ (splitSign s).2.all isDigit ∧ n = signed (splitSign s).1 (natural (splitSign s).2) := by
  simp only [decimal] at denotes
  split at denotes
  · rename_i number
    exact ⟨number.1,number.2,(Option.some.inj denotes).symm⟩
  · cases denotes

/-- A decimal integer is read as it stands if it is in the range of int. -/
theorem stoi_decimal {s : StdString} {n : Int} (denotes : decimal s = some n) (above : -(2 ^ 31) ≤ n) (below : n < 2 ^ 31) :
    stoi s = .ok n := by
  obtain ⟨nonempty,digits,rfl⟩ := decimal_some denotes
  have whole : (splitSign s).2.takeWhile isDigit = (splitSign s).2 :=
    List.takeWhile_eq_self_iff.mpr (List.all_eq_true.mp digits)
  simp only [stoi,dropWhile_space nonempty digits,whole]
  rw [if_neg nonempty,if_pos ⟨above,below⟩]

theorem portOf_some {s : StdString} {n : Int} (port : portOf (some s) = some n) :
    stoi s = .ok n ∧ 0 ≤ n ∧ n < 2 ^ 16 := by
  obtain ⟨denotes,range⟩ := Option.filter_eq_some_iff.mp port
  simp only [Bool.and_eq_true,decide_eq_true_eq] at range
  exact ⟨stoi_decimal denotes (by omega) (by omega),range⟩

/-! ### Runs of the loop -/

theorem given_help {arg : StdString} {rest : List StdString} (help : isHelp arg) :
    given (arg :: rest) = [] ∧ asksHelp (arg :: rest) = true := by
  cases rest <;> simp [given,asksHelp,help]

theorem given_port {arg : StdString} (noHelp : ¬ isHelp arg) (option : isPort arg) (value : StdString)
    (rest : List StdString) :
    given (arg :: value :: rest) = some value :: given rest ∧ asksHelp (arg :: value :: rest) = asksHelp rest := by
  simp [given,asksHelp,noHelp,option]

theorem given_other {arg : StdString} (noHelp : ¬ isHelp arg) (other : ¬ isPort arg) (rest : List StdString) :
    given (arg :: rest) = given rest ∧ asksHelp (arg :: rest) = asksHelp rest := by
  cases rest <;> simp [given,asksHelp,noHelp,other]

/-- The loop of main when every port option that it meets has a port behind it. -/
theorem optionLoop_ports {argc i : Nat} {args : List StdString} {port : Int} (inside : i + args.length = argc)
    (range : 0 ≤ port ∧ port < 2 ^ 16) (ports : ∀ value ∈ given args, (portOf value).isSome) :
    (∀ j ∈ (optionLoop argc i args port).1, j < argc) ∧
      (optionLoop argc i args port).2 =
        if asksHelp args then .usage 0 else .listens (((given args).filterMap portOf).getLast?.getD port) := by
  fun_induction optionLoop argc i args port with
  | case1 i port =>
    rw [Int.emod_eq_of_lt range.1 range.2]
    exact ⟨nofun,rfl⟩
  | case2 i arg rest port help =>
    rw [List.length_cons] at inside
    refine ⟨?_,by rw [if_pos (given_help help).2]⟩
    intro j member
    simp only [List.mem_cons,List.not_mem_nil,or_false] at member
    omega
  | case3 i arg port noHelp option met =>
    have missing := ports none (by simp [given,noHelp,option])
    cases missing
  | case4 i arg port noHelp option met value rest e error =>
    rw [(given_port noHelp option value rest).1] at ports
    obtain ⟨n,port⟩ := Option.isSome_iff_exists.mp (ports (some value) List.mem_cons_self)
    rw [(portOf_some port).1] at error
    cases error
  | case5 i arg before noHelp option met value rest port parsed reads outcome executed ih =>
    obtain ⟨values,help⟩ := given_port noHelp option value rest
    rw [values] at ports
    obtain ⟨n,listed⟩ := Option.isSome_iff_exists.mp (ports (some value) List.mem_cons_self)
    obtain ⟨read,range'⟩ := portOf_some listed
    obtain rfl : n = port := Except.ok.inj (read.symm.trans parsed)
    simp only [List.length_cons] at inside
    obtain ⟨insideRest,outcomeRest⟩ := ih (by omega) range' fun value later => ports value (List.mem_cons_of_mem _ later)
    rw [executed] at insideRest outcomeRest
    refine ⟨?_,?_⟩
    · intro j member
      rcases List.mem_cons.mp member with rfl | member
      · omega
      · rcases List.mem_cons.mp member with rfl | later
        · omega
        · exact insideRest j later
    · rw [values,help,List.filterMap_cons_some listed,List.getLast?_cons,Option.getD_some]
      exact outcomeRest
  | case6 i arg rest port noHelp option past =>
    rw [List.length_cons] at inside
    omega
  | case7 i arg rest port noHelp noOption reads outcome executed ih =>
    obtain ⟨values,help⟩ := given_other noHelp noOption rest
    rw [values] at ports
    rw [List.length_cons] at inside
    obtain ⟨insideRest,outcomeRest⟩ := ih (by omega) range ports
    rw [executed] at insideRest outcomeRest
    refine ⟨?_,?_⟩
    · intro j member
      rcases List.mem_cons.mp member with rfl | later
      · omega
      · exact insideRest j later
    · rw [values,help]
      exact outcomeRest

/-- The branch that returns -1 is not reached. -/
theorem optionLoop_not_returns {argc i : Nat} {args : List StdString} {port : Int} (inside : i + args.length = argc)
    (status : Int) : (optionLoop argc i args port).2 ≠ .returns status := by
  fun_induction optionLoop argc i args port with
  | case1 | case2 | case3 | case4 => nofun
  | case5 i arg before noHelp option met value rest port parsed reads outcome executed ih =>
    simp only [List.length_cons] at inside
    rw [executed] at ih
    exact ih (by omega)
  | case6 i arg rest port noHelp option past =>
    rw [List.length_cons] at inside
    omega
  | case7 i arg rest port noHelp noOption reads outcome executed ih =>
    rw [List.length_cons] at inside
    rw [executed] at ih
    exact ih (by omega)

/-- With two arguments or more, main stays inside argv and does what is asked of it exactly if
    every port option that it meets has a port behind it. -/
theorem options_obeyed_iff (argv : List StdString) (many : 3 ≤ argv.length) : Obeys argv ↔ PortsGiven argv := by
  have inside : 1 + argv.tail.length = argv.length := by
    rw [List.length_tail]
    omega
  have loop : main argv = optionLoop argv.length 1 argv.tail 8080 := if_neg (by omega)
  rw [Obeys,PortsGiven,loop]
  constructor
  · rintro ⟨-,outcome⟩
    by_contra missing
    rw [wanted,if_neg (by rw [List.all_eq_true]; exact missing)] at outcome
    exact optionLoop_not_returns inside _ outcome
  · intro ports
    have range : (0 : Int) ≤ 8080 ∧ (8080 : Int) < 2 ^ 16 := by decide
    obtain ⟨reads,outcome⟩ := optionLoop_ports inside range ports
    refine ⟨reads,outcome.trans ?_⟩
    rw [wanted,if_pos (List.all_eq_true.mpr ports)]

theorem options_obeyed_last_port :
    3 ≤ [literal "zmq_out",literal "-p",literal "5000",literal "x",literal "--port",literal "5034"].length ∧
    Obeys [literal "zmq_out",literal "-p",literal "5000",literal "x",literal "--port",literal "5034"] :=
  ⟨by decide,(options_obeyed_iff _ (by decide)).mpr (by rw [PortsGiven]; decide)⟩

/-- A port option at the end, a number that is too large for a port, one with a tail and none
    at all. -/
theorem options_not_obeyed :
    main [literal "zmq_out",literal "x",literal "-p"] = ([1,2,3],.pastEnd) ∧
    main [literal "zmq_out",literal "-p",literal "70000"] = ([1,2],.listens 4464) ∧
    main [literal "zmq_out",literal "-p",literal "80abc"] = ([1,2],.listens 80) ∧
    main [literal "zmq_out",literal "-p",literal "abc"] = ([1,2],.throws .invalid_argument) ∧
    ¬ Obeys [literal "zmq_out",literal "x",literal "-p"] ∧ ¬ Obeys [literal "zmq_out",literal "-p",literal "70000"] ∧
    ¬ Obeys [literal "zmq_out",literal "-p",literal "80abc"] ∧ ¬ Obeys [literal "zmq_out",literal "-p",literal "abc"] := by
  refine ⟨by decide,by decide,by decide,by decide,?_,?_,?_,?_⟩ <;>
  · rintro ⟨-,outcome⟩
    revert outcome
    decide

end ZmqOut.Options
