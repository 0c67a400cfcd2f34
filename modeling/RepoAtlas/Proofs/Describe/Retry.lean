import RepoAtlas.Describe.Retry
import RepoAtlas.Proofs.Describe.Policy

/-!
# Asking until there is an answer

A describer that is asked the same question again and again gives one answer after the
other (`Describer.answer`). As long as they are errors and more attempts are allowed, each
is followed by a wait and the next attempt (`Describer.askFrom_of_errors`), so what
happens until the question comes to an end is told by the number of its attempts
(`exchange`).

That number is the place of the first answer that is a text, if it is among those
that the policy allows (`Describer.ask_of_text`), and all that are allowed otherwise
(`Describer.ask_of_errors`).
-/

namespace RepoAtlas

/-- A question that is asked `n` times with a wait behind each, and then a last time. -/
def exchange (q : Question) (wait : Nat → Duration) (n : Nat) : List Attempt :=
  (List.range n).flatMap (fun i => [.asked q, .waited (wait (i + 1))]) ++ [.asked q]

theorem exchange_succ (q : Question) (wait : Nat → Duration) (n : Nat) :
    exchange q wait (n + 1) =
      .asked q :: .waited (wait 1) :: exchange q (fun i => wait (i + 1)) n := by
  rw [exchange, List.range_succ_eq_map, List.flatMap_cons, List.flatMap_map]
  rfl

namespace Describer

variable {σ : Type}

/-- The state of a describer that was asked a question `n` times. -/
def after (d : Describer σ) (q : Question) : σ → Nat → σ
  | s, 0 => s
  | s, n + 1 => d.after q (d s q).2 n

/-- What a describer answers to a question that it was asked `n` times before. -/
def answer (d : Describer σ) (q : Question) (s : σ) (n : Nat) : Answer :=
  (d (d.after q s n) q).1

variable {d : Describer σ} {p : Policy} {q : Question} {s next : σ} {wait : Nat → Duration}

theorem after_succ (d : Describer σ) (q : Question) (s : σ) (n : Nat) :
    d.after q s (n + 1) = (d (d.after q s n) q).2 := by
  induction n generalizing s with
  | zero => rfl
  | succ n ih => exact ih (d s q).2

/-- The state behind an answer is that of one more attempt. -/
theorem answered {n : Nat} {a : Answer} (h : d.answer q s n = a) :
    d (d.after q s n) q = (a, d.after q s (n + 1)) :=
  Prod.ext h (after_succ d q s n).symm

/-! ### One attempt -/

theorem askFrom_of_text {text : String} (h : d s q = (.ok text, next)) (more failures : Nat) :
    d.askFrom p q more failures s = some (.described (.ofText text), [.asked q], next) := by
  cases more <;> rw [askFrom, h]

theorem askFrom_of_last {e : DescribeError} (h : d s q = (.error e, next)) (failures : Nat) :
    d.askFrom p q 0 failures s =
      some (.skipped (failures + 1) e.reason, [.asked q], next) := by
  rw [askFrom, h]

/-- Behind an error that is not the last there are a wait and the other attempts. -/
theorem askFrom_of_error {e : DescribeError} (h : d s q = (.error e, next)) {failures : Nat}
    {w : Duration} (hwait : p.waitAfter? (failures + 1) = some w) (more : Nat) :
    d.askFrom p q (more + 1) failures s =
      (d.askFrom p q more (failures + 1) next).map fun (outcome, attempts, last) =>
        (outcome, .asked q :: .waited w :: attempts, last) := by
  rw [askFrom, h]
  dsimp only
  rw [hwait, Option.bind_some]

/-! ### Attempts in a row -/

/-- Behind `n` errors, of which none is the last, what is left comes to its end as it
    does on its own. -/
theorem askFrom_of_errors {n more failures : Nat} {outcome : Outcome} {last : σ}
    (hwait : ∀ i, p.waitAfter? (failures + i) = some (wait i))
    (herror : ∀ i < n, ∃ e, d.answer q s i = .error e)
    (hend : d.askFrom p q more (failures + n) (d.after q s n) =
      some (outcome, [.asked q], last)) :
    d.askFrom p q (n + more) failures s = some (outcome, exchange q wait n, last) := by
  induction n generalizing failures s wait with
  | zero => exact (Nat.zero_add more).symm ▸ hend
  | succ n ih =>
    obtain ⟨e, he⟩ := herror 0 (Nat.zero_lt_succ n)
    have hfirst : d s q = (.error e, (d s q).2) := answered he
    have hlater (i : Nat) : p.waitAfter? (failures + 1 + i) = some (wait (i + 1)) := by
      rw [Nat.add_assoc, Nat.add_comm 1 i, hwait]
    have hothers : d.askFrom p q (n + more) (failures + 1) (d s q).2 =
        some (outcome, exchange q (fun i => wait (i + 1)) n, last) := by
      refine ih hlater (fun i hi => herror (i + 1) (Nat.succ_lt_succ hi)) ?_
      rw [Nat.add_assoc, Nat.add_comm 1 n]
      exact hend
    rw [Nat.add_right_comm, askFrom_of_error hfirst (hwait 1), hothers, exchange_succ]
    rfl

section Ends

variable (hwait : ∀ i, p.waitAfter? i = some (wait i))
include hwait

/-- A question comes to its end with the first answer that is a text. -/
theorem ask_of_text {n : Nat} {text : String} (hn : n < max 1 p.attempts)
    (herror : ∀ i < n, ∃ e, d.answer q s i = .error e) (htext : d.answer q s n = .ok text) :
    d.ask p q s =
      some (.described (.ofText text), exchange q wait n, d.after q s (n + 1)) := by
  obtain ⟨more, hmore⟩ : ∃ more, p.attempts - 1 = n + more := ⟨p.attempts - 1 - n, by omega⟩
  have hfrom (i : Nat) : p.waitAfter? (0 + i) = some (wait i) := by rw [Nat.zero_add, hwait]
  rw [ask, hmore]
  exact askFrom_of_errors hfrom herror (askFrom_of_text (answered htext) more (0 + n))

/-- A question comes to its end with the last error that the policy allows. -/
theorem ask_of_errors {n : Nat} (hn : n + 1 = max 1 p.attempts)
    (herror : ∀ i < n, ∃ e, d.answer q s i = .error e) {e : DescribeError}
    (he : d.answer q s n = .error e) :
    d.ask p q s =
      some (.skipped (n + 1) e.reason, exchange q wait n, d.after q s (n + 1)) := by
  have hmore : p.attempts - 1 = n + 0 := by omega
  have hfrom (i : Nat) : p.waitAfter? (0 + i) = some (wait i) := by rw [Nat.zero_add, hwait]
  have hend : d.askFrom p q 0 (0 + n) (d.after q s n) =
      some (.skipped (n + 1) e.reason, [.asked q], d.after q s (n + 1)) := by
    rw [Nat.zero_add]
    exact askFrom_of_last (answered he) n
  rw [ask, hmore]
  exact askFrom_of_errors hfrom herror hend

end Ends

/-- What comes of a question under a policy whose spans are at most half of the longest.
    Nothing but the question is asked, as often as it takes up to the first text, but no
    more often than the policy allows, and after the `i`-th failure the wait of so many
    failures lies between it and the next attempt. -/
theorem ask_exchanges (d : Describer σ) (q : Question) (s : σ) (hfirst : p.firstWait.IsHalf)
    (hlongest : p.longestWait.IsHalf) :
    ∃ wait : Nat → Duration, (∀ i, p.waitAfter? i = some (wait i)) ∧
      (∀ n < max 1 p.attempts, ∀ text, (∀ i < n, ∃ e, d.answer q s i = .error e) →
        d.answer q s n = .ok text →
          d.ask p q s =
            some (.described (.ofText text), exchange q wait n, d.after q s (n + 1))) ∧
        ((∀ i < max 1 p.attempts, ∃ e, d.answer q s i = .error e) →
          ∃ e, d.answer q s (max 1 p.attempts - 1) = .error e ∧
            d.ask p q s =
              some (.skipped (max 1 p.attempts) e.reason,
                exchange q wait (max 1 p.attempts - 1), d.after q s (max 1 p.attempts))) := by
  have hwait := Policy.waitAfter?_eq_some hfirst hlongest
  refine ⟨_, hwait, fun n hn text herror htext => ask_of_text hwait hn herror htext, ?_⟩
  intro herror
  obtain ⟨n, hn⟩ : ∃ n, n + 1 = max 1 p.attempts := ⟨max 1 p.attempts - 1, by omega⟩
  rw [← hn] at herror ⊢
  obtain ⟨e, he⟩ := herror n (Nat.lt_succ_self n)
  have hbefore : ∀ i < n, ∃ e, d.answer q s i = .error e :=
    fun i hi => herror i (Nat.lt_succ_of_lt hi)
  exact ⟨e, he, ask_of_errors hwait hn hbefore he⟩

/-- A describer that gives answers in order, whatever it is asked. -/
def replaying (answers : Nat → Answer) : Describer Nat := fun n _ => (answers n, n + 1)

theorem answer_replaying (answers : Nat → Answer) (q : Question) (s n : Nat) :
    (replaying answers).answer q s n = answers (s + n) := by
  induction n generalizing s with
  | zero => rfl
  | succ n ih => exact (ih (s + 1)).trans (congrArg answers (Nat.succ_add_eq_add_succ s n))

/-- A text that comes in time behind two errors, and an error under a policy that
    allows no attempt. -/
theorem ask_exchanges_recovers :
    let d := replaying fun n => if n < 2 then .error (.stated "down") else .ok "Description: Sum"
    let q : Question := ⟨{ name := "a.py", language := "Python" }, "m"⟩
    let p : Policy := {}
    (p.firstWait.IsHalf ∧ p.longestWait.IsHalf ∧
      d.ask p q 0 =
        some (.described (.ofText "Description: Sum"),
          [.asked q, .waited (.ofMilliseconds 500), .asked q, .waited (.ofMilliseconds 1000),
            .asked q], 3)) ∧
      (Policy.withoutWait 0).firstWait.IsHalf ∧ (Policy.withoutWait 0).longestWait.IsHalf ∧
        d.ask (.withoutWait 0) q 0 = some (.skipped 1 "Enrichment error: down", [.asked q], 1) := by
  intro d q p
  have herror (i : Nat) (hi : i < 2) : ∃ e, d.answer q 0 i = .error e :=
    ⟨.stated "down", by rw [answer_replaying, Nat.zero_add, if_pos hi]⟩
  have hhalf : p.firstWait.IsHalf ∧ p.longestWait.IsHalf := by decide
  have hnone : (Policy.withoutWait 0).firstWait.IsHalf ∧
      (Policy.withoutWait 0).longestWait.IsHalf := by decide
  refine ⟨⟨hhalf.1, hhalf.2, ?_⟩, hnone.1, hnone.2, ?_⟩
  · obtain ⟨wait, hwait, htext, -⟩ := ask_exchanges d q 0 hhalf.1 hhalf.2
    have hone : p.waitAfter? 1 = some (.ofMilliseconds 500) := by decide
    have htwo : p.waitAfter? 2 = some (.ofMilliseconds 1000) := by decide
    rw [hwait, Option.some.injEq] at hone htwo
    rw [htext 2 (by decide) "Description: Sum" herror rfl, ← hone, ← htwo]
    rfl
  · obtain ⟨wait, -, -, hlast⟩ := ask_exchanges d q 0 hnone.1 hnone.2
    obtain ⟨e, he, hask⟩ := hlast fun i hi => herror i (hi.trans_le (by decide))
    rw [hask]
    cases he
    rfl

end Describer

end RepoAtlas
