import Mathlib.Data.List.Forall2
import RepoAtlas.Proofs.Syntax.Derivation

/-!
# Flat grammars

The alternatives of an expression, told without the repetitions met so far
(`IsAlternative`): ranks and sides are left open, and a repetition is a rule of its own
that stands for some alternatives. What is entered while the rules of a grammar are
written out flat tells alternatives in this sense (`flattens_alternatives`).
-/

namespace RepoAtlas.Syntax

variable {T N R : Type}

/-- Whether two steps differ in their ranks and sides at most. -/
structure Step.Alike (s t : Step T N R) : Prop where
  symbol : s.symbol = t.symbol
  role : s.role = t.role
  shown : s.shown = t.shown

theorem Step.Alike.refl (s : Step T N R) : s.Alike s := ⟨rfl, rfl, rfl⟩

theorem Steps.alike_refl (steps : Steps T N R) : List.Forall₂ Step.Alike steps steps :=
  List.forall₂_same.2 fun s _ => .refl s

theorem Steps.alike_modifyLast {f : Step T N R → Step T N R} (h : ∀ s : Step T N R, s.Alike (f s))
    (steps : Steps T N R) : List.Forall₂ Step.Alike steps (Steps.modifyLast f steps) := by
  fun_induction Steps.modifyLast f steps with
  | case1 => exact .nil
  | case2 s => exact .cons (h s) .nil
  | case3 s rest _ ih => exact .cons (.refl s) ih

/-- The alternatives of an expression, where repetitions have their numbers from `base`
    on and stand for the alternatives listed. -/
inductive IsAlternative (number : N → Nat) (base : Nat) (bodies : List (List (Steps T N R))) :
    Expr T N R → Steps T N R → Prop
  | token {t : T} (rank : Int) (side : Option Side) :
    IsAlternative number base bodies (.token t) [⟨.token t, rank, side, none, none⟩]
  | rule {n : N} (rank : Int) (side : Option Side) :
    IsAlternative number base bodies (.rule n) [⟨.rule (number n), rank, side, none, none⟩]
  | seqNil : IsAlternative number base bodies (.seq []) []
  | seqCons {e : Expr T N R} {es : List (Expr T N R)} {first others : Steps T N R} :
    IsAlternative number base bodies e first → IsAlternative number base bodies (.seq es) others →
      IsAlternative number base bodies (.seq (e :: es)) (first ++ others)
  | choice {e : Expr T N R} {es : List (Expr T N R)} {steps : Steps T N R} :
    e ∈ es → IsAlternative number base bodies e steps →
      IsAlternative number base bodies (.choice es) steps
  | many1 {e : Expr T N R} {i : Nat} {body : List (Steps T N R)} (rank : Int)
    (side : Option Side) :
    bodies[i]? = some body → (∀ steps ∈ body, IsAlternative number base bodies e steps) →
      IsAlternative number base bodies (.many1 e) [⟨.rule (base + i), rank, side, none, none⟩]
  | ranked {rank : Int} {side : Option Side} {e : Expr T N R} {steps alike : Steps T N R} :
    IsAlternative number base bodies e steps → List.Forall₂ Step.Alike steps alike →
      IsAlternative number base bodies (.ranked rank side e) alike
  | role {r : R} {e : Expr T N R} {steps : Steps T N R} :
    IsAlternative number base bodies e steps →
      IsAlternative number base bodies (.role r e)
        (steps.map fun s => { s with role := s.role <|> some r })
  | asToken {t : T} {e : Expr T N R} {steps : Steps T N R} :
    IsAlternative number base bodies e steps →
      IsAlternative number base bodies (.asToken t e)
        (steps.map fun s => { s with shown := some (.token t) })
  | asRule {n : N} {e : Expr T N R} {steps : Steps T N R} :
    IsAlternative number base bodies e steps →
      IsAlternative number base bodies (.asRule n e)
        (steps.map fun s => { s with shown := some (.rule n) })

/-- What comes of writing out an expression: more repetitions may have been met, and with
    these and any others all results are alternatives. -/
structure Flattens (number : N → Nat) (e : Expr T N R) (reps : Repetitions T N R)
    (result : List (Steps T N R) × Repetitions T N R) : Prop where
  base_eq : result.2.base = reps.base
  extended : reps.bodies <+: result.2.bodies
  isAlternative {bodies : List (List (Steps T N R))} {steps : Steps T N R} :
    result.2.bodies <+: bodies → steps ∈ result.1 →
      IsAlternative number reps.base bodies e steps

variable {number : N → Nat} {ctx : Context} {e e' : Expr T N R} {es : List (Expr T N R)}
  {reps : Repetitions T N R} {result : List (Steps T N R) × Repetitions T N R}

namespace Flattens

/-- An expression with one alternative. -/
theorem single {steps : Steps T N R}
    (h : ∀ bodies, IsAlternative number reps.base bodies e steps) :
    Flattens number e reps ([steps], reps) := by
  refine ⟨rfl, List.prefix_rfl, fun {bodies} {other} _ hother => ?_⟩
  rw [List.mem_singleton.1 hother]
  exact h bodies

/-- An expression around another changes the steps of each alternative. -/
theorem around {f : Steps T N R → Steps T N R} (h : Flattens number e reps result)
    (hf : ∀ bodies steps, IsAlternative number reps.base bodies e steps →
      IsAlternative number reps.base bodies e' (f steps)) :
    Flattens number e' reps (result.1.map f, result.2) := by
  refine ⟨h.base_eq, h.extended, fun {bodies} {other} hextended hother => ?_⟩
  obtain ⟨steps, hsteps, rfl⟩ := List.mem_map.1 hother
  exact hf bodies steps (h.isAlternative hextended hsteps)

/-- An expression whose alternatives are those of another. -/
theorem same (h : Flattens number e reps result)
    (hsame : ∀ bodies steps, IsAlternative number reps.base bodies e steps →
      IsAlternative number reps.base bodies e' steps) : Flattens number e' reps result :=
  ⟨h.base_eq, h.extended, fun hextended hsteps => hsame _ _ (h.isAlternative hextended hsteps)⟩

/-- An expression made of two that are written out one after the other. -/
theorem both {e₂ : Expr T N R} {result₂ : List (Steps T N R) × Repetitions T N R}
    {combined : List (Steps T N R)} (h : Flattens number e reps result)
    (h₂ : Flattens number e₂ result.2 result₂)
    (hcombined : ∀ bodies, (∀ steps ∈ result.1, IsAlternative number reps.base bodies e steps) →
      (∀ steps ∈ result₂.1, IsAlternative number reps.base bodies e₂ steps) →
      ∀ steps ∈ combined, IsAlternative number reps.base bodies e' steps) :
    Flattens number e' reps (combined, result₂.2) := by
  refine ⟨h₂.base_eq.trans h.base_eq, h.extended.trans h₂.extended,
    fun {bodies} {steps} hextended hsteps => hcombined bodies (fun first hfirst => ?_)
      (fun second hsecond => ?_) steps hsteps⟩
  · exact h.isAlternative (h₂.extended.trans hextended) hfirst
  · rw [← h.base_eq]
    exact h₂.isAlternative hextended hsecond

end Flattens

section

variable [DecidableEq T] [DecidableEq N] [DecidableEq R]

/-- The number of a repetition that is entered leads to its alternatives. -/
theorem enter_eq (reps : Repetitions T N R) (body : List (Steps T N R)) :
    ∃ i, (reps.enter body).1 = reps.base + i ∧ (reps.enter body).2.base = reps.base ∧
      reps.bodies <+: (reps.enter body).2.bodies ∧ (reps.enter body).2.bodies[i]? = some body := by
  unfold Repetitions.enter
  split
  · rename_i i hi
    obtain ⟨hlt, hbody, -⟩ := List.idxOf?_eq_some_iff.1 hi
    exact ⟨i, rfl, rfl, List.prefix_rfl, List.getElem?_eq_some_iff.2 ⟨hlt, hbody⟩⟩
  · exact ⟨reps.bodies.length, rfl, rfl, List.prefix_append .., by simp⟩

/-- A repetition stands for the alternatives of what is repeated. -/
theorem Flattens.many1 (h : Flattens number e reps result) (rank : Int) (side : Option Side) :
    Flattens number (.many1 e) reps
      ([[⟨.rule (result.2.enter result.1).1, rank, side, none, none⟩]],
        (result.2.enter result.1).2) := by
  obtain ⟨i, hi, hbase, hextended, hbody⟩ := enter_eq result.2 result.1
  refine ⟨hbase.trans h.base_eq, h.extended.trans hextended,
    fun {bodies} {steps} hbodies hsteps => ?_⟩
  rw [List.mem_singleton.1 hsteps, hi, h.base_eq]
  -- Repetitions met later leave those met before where they are.
  refine .many1 rank side ?_ fun steps hsteps => h.isAlternative (hextended.trans hbodies) hsteps
  obtain ⟨others, rfl⟩ := hbodies
  exact (List.getElem?_append_left (List.getElem?_eq_some_iff.1 hbody).1).trans hbody

-- On expressions and lists of them, since alternatives are collected along both.
mutual

/-- The alternatives of an expression are alternatives. -/
theorem flattens_alternatives (number : N → Nat) : ∀ (e : Expr T N R) (ctx : Context)
    (reps : Repetitions T N R), Flattens number e reps ((e.alternatives number ctx).run reps)
  | .token t, ctx, reps => by
    rw [Expr.alternatives]
    exact .single fun _ => .token ctx.rank ctx.side
  | .rule n, ctx, reps => by
    rw [Expr.alternatives]
    exact .single fun _ => .rule ctx.rank ctx.side
  | .seq es, ctx, reps => by
    rw [Expr.alternatives]
    exact flattens_seqAlternatives number es ctx reps
  | .choice es, ctx, reps => by
    rw [Expr.alternatives]
    exact flattens_choiceAlternatives number es ctx reps
  | .many1 e, ctx, reps => by
    rw [Expr.alternatives]
    exact (flattens_alternatives number e .top reps).many1 ctx.rank ctx.side
  | .ranked rank side e, ctx, reps => by
    have h := flattens_alternatives number e { ctx with rank, side := side <|> ctx.side } reps
    rw [Expr.alternatives]
    split
    · exact h.same fun _ steps hsteps => .ranked hsteps (Steps.alike_refl steps)
    · refine h.around fun _ steps hsteps => .ranked hsteps (Steps.alike_modifyLast ?_ steps)
      exact fun s => ⟨rfl, rfl, rfl⟩
  | .role r e, ctx, reps => by
    rw [Expr.alternatives]
    exact (flattens_alternatives number e ctx reps).around fun _ _ => .role
  | .asToken t e, ctx, reps => by
    rw [Expr.alternatives]
    exact (flattens_alternatives number e ctx reps).around fun _ _ => .asToken
  | .asRule n e, ctx, reps => by
    rw [Expr.alternatives]
    exact (flattens_alternatives number e ctx reps).around fun _ _ => .asRule

theorem flattens_seqAlternatives (number : N → Nat) : ∀ (es : List (Expr T N R)) (ctx : Context)
    (reps : Repetitions T N R), Flattens number (.seq es) reps
      ((Expr.seqAlternatives number ctx es).run reps)
  | [], ctx, reps => by
    rw [Expr.seqAlternatives]
    exact .single fun _ => .seqNil
  | [e], ctx, reps => by
    rw [Expr.seqAlternatives]
    refine (flattens_alternatives number e ctx reps).same fun bodies steps hsteps => ?_
    have hseq := IsAlternative.seqCons hsteps .seqNil
    rwa [List.append_nil] at hseq
  | e :: other :: es, ctx, reps => by
    rw [Expr.seqAlternatives]
    swap
    · exact List.cons_ne_nil _ _
    refine (flattens_alternatives number e { ctx with atEnd := false } reps).both
      (flattens_seqAlternatives number (other :: es) ctx _)
      fun bodies hfirst hothers steps hsteps => ?_
    obtain ⟨first, hmem, hsteps⟩ := List.mem_flatMap.1 hsteps
    obtain ⟨others, hmem', rfl⟩ := List.mem_map.1 hsteps
    exact .seqCons (hfirst first hmem) (hothers others hmem')

theorem flattens_choiceAlternatives (number : N → Nat) : ∀ (es : List (Expr T N R))
    (ctx : Context) (reps : Repetitions T N R), Flattens number (.choice es) reps
      ((Expr.choiceAlternatives number ctx es).run reps)
  | [], ctx, reps => by
    rw [Expr.choiceAlternatives]
    exact ⟨rfl, List.prefix_rfl, fun _ hsteps => nomatch hsteps⟩
  | e :: es, ctx, reps => by
    rw [Expr.choiceAlternatives]
    refine (flattens_alternatives number e ctx reps).both
      (flattens_choiceAlternatives number es ctx _) fun bodies hfirst hothers steps hsteps => ?_
    rcases List.mem_append.1 hsteps with hsteps | hsteps
    · exact .choice (List.mem_cons_self ..) (hfirst steps hsteps)
    · cases hothers steps hsteps with
      | choice hmem h => exact .choice (List.mem_cons_of_mem _ hmem) h

end

/-! ### The rules of a grammar -/

/-- The rules of a grammar, written out flat, and the repetitions met in them. -/
def Grammar.flattened (g : Grammar T N R) :
    List (N × List (Steps T N R)) × Repetitions T N R :=
  let flatten : StateM (Repetitions T N R) (List (N × List (Steps T N R))) :=
    g.rules.mapM fun (n, e) => do pure (n, ← e.alternatives g.number .top)
  flatten.run ⟨g.rules.length, []⟩

theorem flattens_rules (number : N → Nat) (rows : List (N × Expr T N R))
    (reps : Repetitions T N R) :
    let flatten : StateM (Repetitions T N R) (List (N × List (Steps T N R))) :=
      rows.mapM fun (n, e) => do pure (n, ← e.alternatives number .top)
    let result := flatten.run reps
    result.2.base = reps.base ∧ reps.bodies <+: result.2.bodies ∧
      ∀ row ∈ result.1, ∃ e, (row.1, e) ∈ rows ∧ ∀ steps ∈ row.2,
        IsAlternative number reps.base result.2.bodies e steps := by
  induction rows generalizing reps with
  | nil => exact ⟨rfl, List.prefix_rfl, fun _ hrow => nomatch hrow⟩
  | cons row rows ih =>
    obtain ⟨n, e⟩ := row
    have h := flattens_alternatives number e .top reps
    obtain ⟨hbase, hextended, hrows⟩ := ih ((e.alternatives number .top).run reps).2
    rw [List.mapM_cons]
    refine ⟨hbase.trans h.base_eq, h.extended.trans hextended, ?_⟩
    intro row hrow
    rcases List.mem_cons.1 hrow with rfl | hrow
    · exact ⟨e, List.mem_cons_self .., fun steps => h.isAlternative hextended⟩
    · obtain ⟨e', hmem, hsteps⟩ := hrows row hrow
      exact ⟨e', List.mem_cons_of_mem _ hmem, h.base_eq ▸ hsteps⟩

end

end RepoAtlas.Syntax
