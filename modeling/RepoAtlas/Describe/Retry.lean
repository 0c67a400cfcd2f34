import RepoAtlas.Describe.Describer
import RepoAtlas.Describe.Policy
import RepoAtlas.Describe.Reply

/-!
# Asking until there is an answer

A describer is asked the same question until it answers or the policy allows no
more attempts (`Describer.ask`), with a wait after each failure but the last.
What happens in between is recorded (`Attempt`).
-/

namespace RepoAtlas

/-- How the questions about a file end. -/
inductive Outcome where
  | described (reply : Reply)
  /-- No attempt succeeded; the reason is that of the last. -/
  | skipped (attempts : Nat) (reason : String)
  deriving DecidableEq, Repr

/-- What happens while a describer is asked. -/
inductive Attempt where
  | asked (q : Question)
  | waited (d : Duration)
  deriving DecidableEq, Repr

/-- The text of an error in the outcome. That of another part of a program has its own. -/
def DescribeError.reason : DescribeError → String
  | .other message => message
  | e => "Enrichment error: " ++ e.message

namespace Describer

/-- Asks again and again, after so many failures, `more` times at most beyond
    the next. There is no result if a wait overflows. -/
def askFrom {σ : Type} (d : Describer σ) (p : Policy) (q : Question) :
    (more failures : Nat) → σ → Option (Outcome × List Attempt × σ)
  | more, failures, s =>
    match d s q with
    | (.ok text, s) => some (.described (.ofText text), [.asked q], s)
    | (.error e, s) =>
      match more with
      | 0 => some (.skipped (failures + 1) e.reason, [.asked q], s)
      | more + 1 =>
        (p.waitAfter? (failures + 1)).bind fun wait =>
          (askFrom d p q more (failures + 1) s).map fun (outcome, attempts, s) =>
            (outcome, .asked q :: .waited wait :: attempts, s)

/-- Asks a question as often as the policy allows, and at least once. -/
def ask {σ : Type} (d : Describer σ) (p : Policy) (q : Question) (s : σ) :
    Option (Outcome × List Attempt × σ) :=
  askFrom d p q (p.attempts - 1) 0 s

end Describer

end RepoAtlas
