import RepoAtlas.Describe.Policy
import Mathlib.Algebra.Group.Nat.Defs
import Mathlib.Order.MinMax
import Mathlib.Tactic.Set

/-!
# How long is waited

A wait is doubled and capped once for every failure behind the first, and a wait that
no longer changes is not doubled further, which makes no difference
(`Policy.doubled?_succ`). Doubling overflows where the whole seconds do not fit into 64
bits (`Duration.double?_eq`); spans up to half of the longest can be doubled, and capped
by such a span a doubled one is such a span again.

So under a policy of such spans no wait overflows, and the wait after `n` failures is
the first wait times `2 ^ (n - 1)`, unless that is more than the longest wait
(`Policy.waitAfter?_eq_some`).
-/

namespace RepoAtlas

/-! ### Doubling a span -/

namespace Duration

/-- Whether a span is at most half of the longest. -/
def IsHalf (d : Duration) : Prop := 2 * d.nanoseconds ≤ longest.nanoseconds

instance (d : Duration) : Decidable d.IsHalf :=
  inferInstanceAs (Decidable (2 * d.nanoseconds ≤ longest.nanoseconds))

variable {d c : Duration}

/-- The nanoseconds are doubled first, and what they carry goes to the doubled seconds,
    which have 64 bits. -/
theorem double?_eq (d : Duration) :
    d.double? =
      let seconds := 2 * d.seconds + 2 * d.subsecond / perSecond
      if seconds < Nat.pow 2 64 then some (ofParts seconds (2 * d.subsecond % perSecond))
      else none := by
  have hparts : d.nanoseconds = d.seconds * perSecond + d.subsecond :=
    (Nat.div_add_mod' d.nanoseconds perSecond).symm
  have hsecond : perSecond = 1000000000 := rfl
  have hlongest : longest.nanoseconds = Nat.pow 2 64 * perSecond - 1 := rfl
  have hbits : Nat.pow 2 64 = 18446744073709551616 := rfl
  rw [hbits, hsecond] at hlongest
  rw [hsecond] at hparts
  simp only [double?, ofParts, hsecond, hlongest, hbits]
  split_ifs with hfits hseconds hseconds
  · exact congrArg some (congrArg Duration.mk (by omega))
  · omega
  · omega
  · rfl

theorem IsHalf.double?_eq_some (h : d.IsHalf) : d.double? = some ⟨2 * d.nanoseconds⟩ :=
  if_pos h

theorem IsHalf.min (h : c.IsHalf) (d : Duration) : (d.min c).IsHalf :=
  (Nat.mul_le_mul_left 2 (Nat.min_le_right ..)).trans h

end Duration

namespace Policy

open Duration

/-! ### Doubling a wait again and again -/

/-- A wait that no longer changes stays as it is when it is doubled again. -/
theorem doubled?_of_final {cap wait twice : Duration} (hdouble : wait.double? = some twice)
    (hfinal : twice.min cap = wait) (n : Nat) : doubled? cap n wait = some wait := by
  cases n with
  | zero => rfl
  | succ n => rw [doubled?, hdouble, Option.bind_some, if_pos hfinal]

/-- Each time a wait is doubled and capped. -/
theorem doubled?_succ (cap wait : Duration) (n : Nat) :
    doubled? cap (n + 1) wait =
      wait.double?.bind fun twice => doubled? cap n (twice.min cap) := by
  rw [doubled?]
  cases hdouble : wait.double? with
  | none => rfl
  | some twice =>
    rw [Option.bind_some, Option.bind_some]
    split
    · rename_i hfinal
      rw [hfinal, doubled?_of_final hdouble hfinal]
    · rfl

/-- A number that is capped before it is multiplied is the same once it is capped again. -/
theorem min_mul_min {k : Nat} (hk : 0 < k) (m cap : Nat) :
    min (min m cap * k) cap = min (m * k) cap := by
  have hcap : cap ≤ cap * k := Nat.le_mul_of_pos_right cap hk
  rcases Nat.le_total m cap with hm | hm
  · rw [Nat.min_eq_left hm]
  · rw [Nat.min_eq_right hm, Nat.min_eq_right hcap,
      Nat.min_eq_right (hcap.trans (Nat.mul_le_mul_right k hm))]

/-- No doubling overflows, and capped at the end the wait is the one that was doubled
    without a cap. -/
theorem exists_doubled? {cap wait : Duration} (hcap : cap.IsHalf) (hwait : wait.IsHalf)
    (n : Nat) :
    ∃ last, doubled? cap n wait = some last ∧
      last.min cap = ⟨min (wait.nanoseconds * 2 ^ n) cap.nanoseconds⟩ := by
  induction n generalizing wait with
  | zero => exact ⟨wait, rfl, by rw [Nat.pow_zero, Nat.mul_one]; rfl⟩
  | succ n ih =>
    set twice : Duration := ⟨2 * wait.nanoseconds⟩ with htwice
    obtain ⟨last, hlast, hmin⟩ := ih (hcap.min twice)
    refine ⟨last, ?_, hmin.trans (congrArg Duration.mk ?_)⟩
    · rw [doubled?_succ, hwait.double?_eq_some, Option.bind_some, hlast]
    · calc min ((twice.min cap).nanoseconds * 2 ^ n) cap.nanoseconds
          = min (2 * wait.nanoseconds * 2 ^ n) cap.nanoseconds :=
            min_mul_min (Nat.two_pow_pos n) _ _
        _ = min (wait.nanoseconds * 2 ^ (n + 1)) cap.nanoseconds := by
            rw [Nat.pow_succ', ← Nat.mul_assoc, Nat.mul_comm 2 wait.nanoseconds]

/-! ### Waits -/

variable {p : Policy}

/-- The wait after so many failures, if it does not overflow. -/
theorem waitAfter?_eq_some (hfirst : p.firstWait.IsHalf) (hlongest : p.longestWait.IsHalf)
    (n : Nat) :
    p.waitAfter? n =
      some ⟨min p.longestWait.nanoseconds (p.firstWait.nanoseconds * 2 ^ (n - 1))⟩ := by
  obtain ⟨last, hlast, hmin⟩ := exists_doubled? hlongest hfirst (n - 1)
  rw [waitAfter?, hlast, Option.map_some, hmin, Nat.min_comm]

/-- Under a policy whose spans are at most half of the longest, no wait overflows. The
    wait doubles with every failure behind the first, up to the longest wait, and stays
    there. -/
theorem waitAfter?_capped (hfirst : p.firstWait.IsHalf) (hlongest : p.longestWait.IsHalf) :
    ∃ wait : Nat → Duration,
      (∀ n, p.waitAfter? n = some (wait n)) ∧
        (∀ n, (wait n).nanoseconds =
          min p.longestWait.nanoseconds (p.firstWait.nanoseconds * 2 ^ (n - 1))) ∧
        (∀ m n, m ≤ n → (wait m).nanoseconds ≤ (wait n).nanoseconds) ∧
        (∀ n, (wait n).nanoseconds ≤ p.longestWait.nanoseconds) ∧
        ∀ m n, m ≤ n → wait m = p.longestWait → wait n = p.longestWait := by
  set wait : Nat → Duration := fun n =>
    ⟨min p.longestWait.nanoseconds (p.firstWait.nanoseconds * 2 ^ (n - 1))⟩ with hwait
  have hmono : ∀ m n, m ≤ n → (wait m).nanoseconds ≤ (wait n).nanoseconds := by
    intro m n hmn
    have hpow : 2 ^ (m - 1) ≤ 2 ^ (n - 1) := Nat.pow_le_pow_right (by omega) (by omega)
    exact min_le_min_left _ (Nat.mul_le_mul_left p.firstWait.nanoseconds hpow)
  have hle : ∀ n, (wait n).nanoseconds ≤ p.longestWait.nanoseconds := fun n => Nat.min_le_left ..
  refine ⟨wait, waitAfter?_eq_some hfirst hlongest, fun n => rfl, hmono, hle, ?_⟩
  intro m n hmn hm
  have hreached := hmono m n hmn
  rw [hm] at hreached
  exact congrArg Duration.mk (Nat.le_antisymm (hle n) hreached)

/-- A first wait of half the longest span is capped at once, and the longest wait, a
    nanosecond less, stays. -/
theorem waitAfter?_capped_half :
    let p : Policy := ⟨6, ⟨longest.nanoseconds / 2⟩, ⟨longest.nanoseconds / 2 - 1⟩⟩
    p.firstWait.IsHalf ∧ p.longestWait.IsHalf ∧
      p.waitAfter? 0 = some p.longestWait ∧
        p.waitAfter? (Nat.pow 2 32 - 1) = some p.longestWait := by
  intro p
  have hfirst : p.firstWait.IsHalf := by decide
  have hlongest : p.longestWait.IsHalf := by decide
  obtain ⟨wait, hwait, heq, -, -, hstays⟩ := waitAfter?_capped hfirst hlongest
  have hzero : wait 0 = p.longestWait :=
    congrArg Duration.mk ((heq 0).trans (Nat.min_eq_left (by decide)))
  refine ⟨hfirst, hlongest, ?_, ?_⟩
  · rw [hwait, hzero]
  · rw [hwait, hstays 0 _ (Nat.zero_le _) hzero]

end Policy

end RepoAtlas
