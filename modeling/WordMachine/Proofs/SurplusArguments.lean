import WordMachine.Proofs.Outcomes
import WordMachine.Terminal.Action

/-!
# Surplus arguments

A verb reads as many arguments as it takes and leaves the others alone, so what is
left over decides about the refusal only.  The refusal counts in bytes.  Up to 255
arguments it counts right; but the surplus of a longer line is only known up to a
multiple of 256, and a line where it seems to be none is accepted.
-/

namespace WordMachine
namespace Terminal

open Text

/-! ## Readers of a fixed number of arguments -/

/-- The reader looks at so many arguments at most, and gives back those after them. -/
def ReadsUpTo {α : Type} (count : Nat)
    (take : List Text → Except ArgumentError (α × List Text)) : Prop :=
  ∀ arguments, take arguments =
    (take (arguments.take count)).map fun taken => (taken.1, arguments.drop count)

section

variable {α β : Type} {name : String} {read : Text → Except ValueError α} {count further : Nat}
  {take : List Text → Except ArgumentError (α × List Text)}
  {more : α → List Text → Except ArgumentError (β × List Text)}

theorem readsUpTo_none (value : α) : ReadsUpTo 0 fun arguments => .ok (value, arguments) :=
  fun _ => rfl

theorem readsUpTo_optional (name : String) (read : Text → Except ValueError α) (default : α) :
    ReadsUpTo 1 (optionalArgument name read default) := by
  intro arguments
  cases arguments with
  | nil => rfl
  | cons token rest =>
      rw [List.take_succ_cons, List.take_zero, optionalArgument, optionalArgument]
      cases read token with
      | ok value => rfl
      | error error => rfl

theorem readsUpTo_required (name : String) (read : Text → Except ValueError α)
    (expected : UInt8) : ReadsUpTo 1 (requiredArgument name read expected) := by
  intro arguments
  cases arguments with
  | nil => rfl
  | cons token rest =>
      rw [List.take_succ_cons, List.take_zero, requiredArgument, requiredArgument]
      cases read token with
      | ok value => rfl
      | error error => rfl

/-- One reader behind another reads what both of them read. -/
theorem ReadsUpTo.bind (htake : ReadsUpTo count take)
    (hmore : ∀ value, ReadsUpTo further (more value)) :
    ReadsUpTo (count + further) (fun arguments => do
      let (value, rest) ← take arguments
      more value rest) := by
  intro arguments
  have hfirst : (arguments.take (count + further)).take count = arguments.take count := by
    rw [List.take_take, Nat.min_eq_left (Nat.le_add_right _ _)]
  have hrest : (arguments.take (count + further)).drop count =
      (arguments.drop count).take further := by
    rw [List.drop_take, Nat.add_sub_cancel_left]
  dsimp only
  rw [htake arguments, htake (arguments.take (count + further)), hfirst, hrest]
  cases take (arguments.take count) with
  | error error => rfl
  | ok taken =>
      change more taken.1 (arguments.drop count) =
        (more taken.1 ((arguments.drop count).take further)).map fun taken =>
          (taken.1, arguments.drop (count + further))
      rw [hmore taken.1 (arguments.drop count), List.drop_drop]

end

namespace Action

theorem readsUpTo_takeOptional {α : Type} (name : String)
    (read : Argument → Except ValueError α) (default : α) (action : α → Action) :
    ReadsUpTo 1 (takeOptional name read default action) :=
  (readsUpTo_optional name (fun token => Argument.ofToken token >>= read) default).bind
    fun value => readsUpTo_none (action value)

theorem readsUpTo_takeRequired {α : Type} (name : String)
    (read : Argument → Except ValueError α) (expected : UInt8) (action : α → Action) :
    ReadsUpTo 1 (takeRequired name read expected action) :=
  (readsUpTo_required name (fun token => Argument.ofToken token >>= read) expected).bind
    fun value => readsUpTo_none (action value)

theorem readsUpTo_takeWatch (expected : UInt8) : ReadsUpTo 3 (takeWatch expected) :=
  (readsUpTo_required _ _ expected).bind fun location =>
    (readsUpTo_optional _ _ _).bind fun width =>
      (readsUpTo_optional _ _ _).bind fun condition =>
        readsUpTo_none (watchAdd location width condition)

theorem readsUpTo_takeArguments {verb : Verb} (hverb : verb ≠ .help) :
    ReadsUpTo verb.arity.toNat (takeArguments verb) := by
  cases verb with
  | help => exact absurd rfl hverb
  | resume | reset | registers | disasm | output | quit | breakList | watchList =>
      exact readsUpTo_none _
  | step | back | trace | source | breakAdd | breakRemove => exact readsUpTo_takeOptional _ _ _ _
  | runUntil | get | watchRemove => exact readsUpTo_takeRequired _ _ _ _
  | watchAdd => exact readsUpTo_takeWatch _

end Action

/-! ## What is left over -/

variable {verb : Verb} {arguments rest : List Text} {action : Action}

theorem toNat_arity_le (verb : Verb) : verb.arity.toNat ≤ 3 := by
  cases verb <;> decide

theorem refuseRest_of_none (hnone : rest.length % 256 = 0) : refuseRest verb rest = .ok () := by
  have hsurplus : UInt8.ofNat rest.length = 0 := by
    rw [← UInt8.toNat_inj, UInt8.toNat_ofNat']
    exact hnone
  rw [refuseRest, if_pos hsurplus]

theorem refuseRest_of_some (hsome : rest.length % 256 ≠ 0) :
    refuseRest verb rest =
      if verb.arity.toNat + rest.length % 256 ≤ 255 then
        .error (.refused (.invalidArgument verb
          (.tooMany verb.arity (UInt8.ofNat (verb.arity.toNat + rest.length % 256)))))
      else .error (.breakdown "the number of arguments exceeds the largest byte") := by
  have hsurplus : (UInt8.ofNat rest.length).toNat = rest.length % 256 := UInt8.toNat_ofNat'
  have hne : UInt8.ofNat rest.length ≠ 0 := by
    intro hzero
    rw [hzero] at hsurplus
    exact hsome hsurplus.symm
  have hsum : verb.arity + UInt8.ofNat rest.length =
      UInt8.ofNat (verb.arity.toNat + rest.length % 256) := by
    rw [← UInt8.toNat_inj, UInt8.toNat_add, hsurplus, UInt8.toNat_ofNat']
  rw [refuseRest, if_neg hne, hsurplus, hsum]

namespace Action

/-- Of the first arguments alone nothing is left over. -/
theorem ofArguments_take (hverb : verb ≠ .help) (arguments : List Text) :
    ofArguments verb (arguments.take verb.arity.toNat) =
      ((takeArguments verb (arguments.take verb.arity.toNat)).mapError
        (.refused <| .invalidArgument verb ·)).map Prod.fst := by
  have htaken := readsUpTo_takeArguments hverb (arguments.take verb.arity.toNat)
  rw [List.take_take, Nat.min_self, List.drop_take, Nat.sub_self, List.take_zero] at htaken
  rw [ofArguments]
  cases htake : takeArguments verb (arguments.take verb.arity.toNat) with
  | error error => rfl
  | ok taken =>
      rw [htake] at htaken
      have hnone : taken.2 = [] := congrArg Prod.snd (Except.ok.inj htaken)
      change (refuseRest verb taken.2 >>= fun _ => .ok taken.1) = .ok taken.1
      rw [hnone, refuseRest_of_none rfl, ok_bind]

/-- Behind the first arguments there is only the refusal. -/
theorem ofArguments_eq (hverb : verb ≠ .help) (arguments : List Text) :
    ofArguments verb arguments =
      ofArguments verb (arguments.take verb.arity.toNat) >>= fun action =>
        (refuseRest verb (arguments.drop verb.arity.toNat)).map fun _ => action := by
  rw [ofArguments_take hverb, ofArguments, readsUpTo_takeArguments hverb arguments]
  cases takeArguments verb (arguments.take verb.arity.toNat) with
  | error error => rfl
  | ok taken => rfl

variable {line : Text}

theorem ofText_eq (hline : verbOf (words line) = .ok (verb, arguments)) :
    ofText line = ofArguments verb arguments := by
  rw [ofText, hline]
  rfl

/-- A line is refused for its first arguments whatever stands behind them. -/
theorem ofText_of_error {failure : LineFailure}
    (hline : verbOf (words line) = .ok (verb, arguments)) (hverb : verb ≠ .help)
    (htaken : ofArguments verb (arguments.take verb.arity.toNat) = .error failure) :
    ofText line = .error failure := by
  rw [ofText_eq hline, ofArguments_eq hverb, htaken]
  rfl

/-- The first arguments alone never break the reader down. -/
theorem ofArguments_take_ne_breakdown (hverb : verb ≠ .help) (arguments : List Text)
    (message : String) :
    ofArguments verb (arguments.take verb.arity.toNat) ≠ .error (.breakdown message) := by
  rw [ofArguments_take hverb]
  cases takeArguments verb (arguments.take verb.arity.toNat) with
  | error error => exact nofun
  | ok taken => exact nofun

/-! ## Lines whose first arguments are right -/

section

variable (hline : verbOf (words line) = .ok (verb, arguments)) (hverb : verb ≠ .help)
  (htaken : ofArguments verb (arguments.take verb.arity.toNat) = .ok action)

include hline hverb htaken

theorem ofText_of_ok :
    ofText line = (refuseRest verb (arguments.drop verb.arity.toNat)).map fun _ => action := by
  rw [ofText_eq hline, ofArguments_eq hverb, htaken, ok_bind]

theorem ofText_of_no_surplus (hnone : (arguments.length - verb.arity.toNat) % 256 = 0) :
    ofText line = .ok action := by
  rw [← List.length_drop] at hnone
  rw [ofText_of_ok hline hverb htaken, refuseRest_of_none hnone]
  rfl

theorem ofText_of_surplus (hsome : 0 < (arguments.length - verb.arity.toNat) % 256)
    (hfits : verb.arity.toNat + (arguments.length - verb.arity.toNat) % 256 ≤ 255) :
    ofText line = .error (.refused (.invalidArgument verb (.tooMany verb.arity
      (UInt8.ofNat (verb.arity.toNat + (arguments.length - verb.arity.toNat) % 256))))) := by
  rw [← List.length_drop] at hsome hfits ⊢
  rw [ofText_of_ok hline hverb htaken, refuseRest_of_some (Nat.ne_of_gt hsome), if_pos hfits]
  rfl

theorem ofText_of_overflow
    (hbeyond : 255 < verb.arity.toNat + (arguments.length - verb.arity.toNat) % 256) :
    ∃ message, ofText line = .error (.breakdown message) := by
  have harity := toNat_arity_le verb
  rw [← List.length_drop] at hbeyond
  rw [ofText_of_ok hline hverb htaken, refuseRest_of_some (by omega),
    if_neg (Nat.not_le.mpr hbeyond)]
  exact ⟨_, rfl⟩

theorem ofText_of_short (hshort : arguments.length ≤ 255)
    (hmore : verb.arity.toNat < arguments.length) :
    ofText line = .error (.refused (.invalidArgument verb (.tooMany verb.arity
      (UInt8.ofNat arguments.length)))) := by
  have hcount : verb.arity.toNat + (arguments.length - verb.arity.toNat) % 256 =
      arguments.length := by
    omega
  have hrefused := ofText_of_surplus hline hverb htaken (by omega) (by omega)
  rwa [hcount] at hrefused

end

end Action

/-- How a line with a verb other than `help` is read.  With at most 255 arguments the reader does
not break down, it never accepts more than the verb takes, and where those that it takes are
right it tells how many there are.  In general a line fails as its first arguments do.  Where
they are right, the number of the others only counts modulo 256: the line is accepted if
nothing remains of it, and otherwise refused with a number that fits a byte, or the reader breaks
down over one that does not. -/
theorem surplus_arguments_are_refused (line : Text) (verb : Verb) (arguments : List Text)
    (hline : verbOf (words line) = .ok (verb, arguments)) (hverb : verb ≠ .help) :
    let arity := verb.arity.toNat
    let taken := Action.ofArguments verb (arguments.take arity)
    let refused := fun found : UInt8 =>
      LineFailure.refused (.invalidArgument verb (.tooMany verb.arity found))
    (arguments.length ≤ 255 →
      (∀ message, Action.ofText line ≠ .error (.breakdown message)) ∧
        (arity < arguments.length →
          (∀ action, Action.ofText line ≠ .ok action) ∧
            ∀ action, taken = .ok action →
              ∃ found, Action.ofText line = .error (refused found) ∧
                found.toNat = arguments.length)) ∧
      (∀ failure, taken = .error failure → Action.ofText line = .error failure) ∧
        ∀ action, taken = .ok action →
          let surplus := (arguments.length - arity) % 256
          (surplus = 0 → Action.ofText line = .ok action) ∧
            (0 < surplus → arity + surplus ≤ 255 →
              Action.ofText line = .error (refused (UInt8.ofNat (arity + surplus)))) ∧
              (255 < arity + surplus →
                ∃ message, Action.ofText line = .error (.breakdown message)) := by
  intro arity taken refused
  refine ⟨fun hshort => ?_, fun _ => Action.ofText_of_error hline hverb, fun action htaken =>
    ⟨Action.ofText_of_no_surplus hline hverb htaken, Action.ofText_of_surplus hline hverb htaken,
      Action.ofText_of_overflow hline hverb htaken⟩⟩
  cases htaken : taken with
  | error failure =>
      rw [Action.ofText_of_error hline hverb htaken]
      refine ⟨?_, fun _ => ⟨nofun, nofun⟩⟩
      intro message hbreaks
      cases hbreaks
      exact Action.ofArguments_take_ne_breakdown hverb arguments message htaken
  | ok action =>
      by_cases hmore : arity < arguments.length
      · rw [Action.ofText_of_short hline hverb htaken hshort hmore]
        refine ⟨nofun, fun _ => ⟨nofun, fun _ _ => ⟨_, rfl, ?_⟩⟩⟩
        rw [UInt8.toNat_ofNat', Nat.mod_eq_of_lt (by omega)]
      · have hnone : (arguments.length - arity) % 256 = 0 := by omega
        rw [Action.ofText_of_no_surplus hline hverb htaken hnone]
        exact ⟨nofun, fun hlonger => absurd hlonger hmore⟩

/-- Two arguments too many for a watchpoint. -/
theorem surplus_arguments_are_refused_watch :
    let line := "watch add buffer 4 write at once".toList
    let arguments := ["buffer", "4", "write", "at", "once"].map String.toList
    verbOf (words line) = .ok (.watchAdd, arguments) ∧
      Action.ofText line = .error (.refused (.invalidArgument .watchAdd (.tooMany 3 5))) := by
  intro line arguments
  have hline : verbOf (words line) = .ok (.watchAdd, arguments) := by decide +kernel
  have htaken : Action.ofArguments .watchAdd (arguments.take 3) =
      .ok (.watchAdd (.label "buffer".toList 0) 4 (some .write)) := by
    decide +kernel
  obtain ⟨hshort, -, -⟩ :=
    surplus_arguments_are_refused line .watchAdd arguments hline (by decide)
  obtain ⟨-, hmany⟩ := hshort (by decide)
  obtain ⟨-, hcounted⟩ := hmany (by decide)
  obtain ⟨found, htext, hfound⟩ := hcounted _ htaken
  have hfive : found = 5 := UInt8.toNat_inj.mp hfound
  rw [hfive] at htext
  exact ⟨hline, htext⟩

/-- The surplus of 256 arguments seems to be none. -/
theorem not_every_surplus_is_refused :
    ¬∀ (line : Text) (verb : Verb) (arguments : List Text),
      verbOf (words line) = .ok (verb, arguments) → verb ≠ .help →
        verb.arity.toNat < arguments.length → ∀ action, Action.ofText line ≠ .ok action := by
  intro hclaim
  let line := "reset".toList ++ (List.replicate 256 " now".toList).flatten
  let arguments := List.replicate 256 "now".toList
  have hline : verbOf (words line) = .ok (.reset, arguments) := by decide +kernel
  have htaken : Action.ofArguments .reset (arguments.take Verb.reset.arity.toNat) = .ok .reset :=
    rfl
  have hlength : arguments.length = 256 := List.length_replicate
  have hmore : Verb.reset.arity.toNat < arguments.length := by
    rw [hlength]
    decide
  have hnone : (arguments.length - Verb.reset.arity.toNat) % 256 = 0 := by
    rw [hlength]
    rfl
  exact hclaim line .reset arguments hline (by decide) hmore _
    (Action.ofText_of_no_surplus hline (by decide) htaken hnone)

end Terminal
end WordMachine
