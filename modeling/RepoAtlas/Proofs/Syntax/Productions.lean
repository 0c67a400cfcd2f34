import RepoAtlas.Proofs.Syntax.Flattening

/-!
# The meaning of productions

What a flat production reads, its rule means (`Language.means_of_mem_productions`). A
symbol means what the expressions describe that it stands for: a token, a rule, or a
repetition (`Language.Means`). Nodes are read by steps, each of which shows what its
symbol means in the shape and the role that it gives (`Language.Reads`).

What is shown in another shape must be one symbol, and what is written out in place of
its name must not give roles, or the flat productions would say something else
(`Language.WellFormed`).
-/

namespace RepoAtlas.Syntax

variable {T N R : Type}

/-! ### Steps and nodes -/

namespace Node

variable (n : Node T N R)

theorem withRole_withRole (r other : R) : (n.withRole r).withRole other = n.withRole r := by
  cases n with
  | leaf t role => cases role <;> rfl
  | branch m role => cases role <;> rfl
  | fault => rfl

end Node

namespace Step

variable (s : Step T N R) (nodes : List (Node T N R))

/-- The nodes of a step, in the shape that the step gives them. -/
def shape : List (Node T N R) :=
  match s.shown with
  | none => nodes
  | some (.rule n) => [.branch n none nodes]
  | some (.token t) => nodes.map (·.retold t)

/-- The nodes of a step, in the shape and the role that the step gives them. -/
def shows : List (Node T N R) :=
  match s.role with
  | none => s.shape nodes
  | some r => (s.shape nodes).map (·.withRole r)

/-- The step in a role, unless it has one. -/
def inRole (r : R) : Step T N R := { s with role := s.role <|> some r }

/-- The step in another shape. -/
def showing (shown : Shown T N) : Step T N R := { s with shown := some shown }

variable {s nodes}

/-- Steps that are alike show the same. -/
theorem Alike.shows_eq {t : Step T N R} (h : s.Alike t) : s.shows nodes = t.shows nodes := by
  rw [shows, shows, shape, shape, h.role, h.shown]

theorem shows_inRole (r : R) :
    (s.inRole r).shows nodes = (s.shows nodes).map (·.withRole r) := by
  cases hrole : s.role with
  | none => simp [shows, inRole, hrole, shape]
  | some old => simp [shows, inRole, hrole, shape, Node.withRole_withRole]

theorem shows_eq_shape (hrole : s.role = none) : s.shows nodes = s.shape nodes := by
  rw [shows, hrole]

theorem shows_eq_self (hrole : s.role = none) (hshown : s.shown = none) :
    s.shows nodes = nodes := by
  rw [shows_eq_shape hrole, shape, hshown]

end Step

/-! ### Expressions that can be written out flat -/

namespace Expr

/-- Whether an expression is a token. -/
def isToken : Expr T N R → Bool
  | .token _ => true
  | _ => false

/-- Whether an expression is one symbol: a token of some, or a rule that is not written
    out in place of its name. -/
def isSymbol (inlined : N → Bool) : Expr T N R → Bool
  | .token _ => true
  | .rule n => !inlined n
  | .choice es => es.all isToken
  | _ => false

/-- Whether an expression is one symbol if it is shown in another shape. -/
def isShapely (inlined : N → Bool) : Expr T N R → Bool
  | .asToken _ e => e.isSymbol inlined
  | .asRule _ e => e.isSymbol inlined
  | _ => true

/-- Whether an expression gives no role. -/
def isBare : Expr T N R → Bool
  | .role .. => false
  | _ => true

end Expr

/-- Whether writing out the rules of a language flat keeps what they describe. -/
structure Language.WellFormed (l : Language T N R) : Prop where
  number_injective : Function.Injective l.number
  number_lt : ∀ n, l.number n < l.rules.length
  isHidden_of_isInlined : ∀ n, l.isInlined n = true → l.isHidden n = true
  isShapely : ∀ n e, (n, e) ∈ l.rules → e.all (Expr.isShapely l.isInlined) = true
  isBare : ∀ n e, (n, e) ∈ l.rules → l.isInlined n = true → e.all Expr.isBare = true
  exists_start : ∃ e, (l.start, e) ∈ l.rules
  isHidden_start : l.isHidden l.start = false

/-- Whether a step shows a rule that is written out in place of its name in no other shape. -/
def Language.IsInlinable (l : Language T N R) (s : Step T N R) : Prop :=
  ∀ n, s.symbol = .rule (l.number n) → l.isInlined n = true → s.shown = none

section Alternatives

variable {l : Language T N R} {bodies : List (List (Steps T N R))} {e : Expr T N R}
  {es : List (Expr T N R)} {steps alike : Steps T N R}

theorem Steps.forall_mem_alike {P : Step T N R → Prop}
    (hP : ∀ s t : Step T N R, s.Alike t → P s → P t)
    (h : List.Forall₂ Step.Alike steps alike) (hsteps : ∀ s ∈ steps, P s) : ∀ t ∈ alike, P t := by
  induction h with
  | nil => exact List.forall_mem_nil _
  | cons halike _ ih =>
    rw [List.forall_mem_cons] at hsteps ⊢
    exact ⟨hP _ _ halike hsteps.1, ih hsteps.2⟩

theorem Step.Alike.isInlinable {s t : Step T N R} (h : s.Alike t) (hs : l.IsInlinable s) :
    l.IsInlinable t :=
  fun n hn hinlined => h.shown ▸ hs n (h.symbol.trans hn) hinlined

theorem isInlinable_replaceBy {s : Step T N R} {body : Steps T N R} (hshown : s.shown = none)
    (hbody : ∀ b ∈ body, l.IsInlinable b) : ∀ b ∈ s.replaceBy body, l.IsInlinable b := by
  refine Steps.forall_mem_alike (fun _ _ => Step.Alike.isInlinable) (Steps.alike_modifyLast ?_ _)
    (List.forall_mem_map.2 ?_)
  · exact fun _ => ⟨rfl, rfl, rfl⟩
  · intro b hb n hn hinlined
    dsimp only
    rw [hshown, hbody b hb n hn hinlined]
    rfl

/-- An expression that is one symbol has alternatives of one step. -/
theorem IsAlternative.of_isSymbol (hnumber : Function.Injective l.number)
    (h : IsAlternative l.number l.rules.length bodies e steps)
    (hsymbol : e.isSymbol l.isInlined = true) :
    ∃ s, steps = [s] ∧ s.role = none ∧ s.shown = none ∧
      ∀ n, s.symbol = .rule (l.number n) → l.isInlined n = false := by
  cases h with
  | token rank side => exact ⟨_, rfl, rfl, rfl, fun n hn => nomatch hn⟩
  | rule rank side =>
    refine ⟨_, rfl, rfl, rfl, fun n hn => ?_⟩
    obtain rfl := hnumber (Symbol.rule.inj hn)
    simpa [Expr.isSymbol] using hsymbol
  | choice hmem h =>
    have htoken := List.all_eq_true.1 hsymbol _ hmem
    cases h with
    | token rank side => exact ⟨_, rfl, rfl, rfl, fun n hn => nomatch hn⟩
    | _ => cases htoken
  | _ => cases hsymbol

/-- The alternatives of an expression show one symbol only in another shape. -/
theorem IsAlternative.isInlinable (hwf : l.WellFormed)
    (h : IsAlternative l.number l.rules.length bodies e steps)
    (hshapely : e.all (Expr.isShapely l.isInlined) = true) : ∀ s ∈ steps, l.IsInlinable s := by
  -- What is shown in another shape is one symbol, and no rule that is written out.
  have hshaped {e : Expr T N R} {steps : Steps T N R} (shown : Shown T N)
      (h : IsAlternative l.number l.rules.length bodies e steps)
      (hsymbol : e.isSymbol l.isInlined = true) :
      ∀ s ∈ steps.map (·.showing shown), l.IsInlinable s := by
    obtain ⟨s, rfl, -, -, hown⟩ := h.of_isSymbol hwf.number_injective hsymbol
    refine List.forall_mem_singleton.2 fun n hn hinlined => ?_
    cases (hown n hn).symm.trans hinlined
  induction h with
  | token rank side => exact List.forall_mem_singleton.2 fun _ _ _ => rfl
  | rule rank side => exact List.forall_mem_singleton.2 fun _ _ _ => rfl
  | seqNil => exact List.forall_mem_nil _
  | seqCons _ _ ihFirst ihOthers =>
    obtain ⟨hfirst, hothers⟩ := Expr.all_seq_cons hshapely rfl
    exact List.forall_mem_append.2 ⟨ihFirst hfirst, ihOthers hothers⟩
  | choice hmem _ ih => exact ih (Expr.all_of_choice hshapely hmem)
  | many1 rank side _ _ _ => exact List.forall_mem_singleton.2 fun _ _ _ => rfl
  | ranked _ halike ih =>
    exact Steps.forall_mem_alike (fun _ _ => Step.Alike.isInlinable) halike (ih hshapely)
  | role _ ih => exact List.forall_mem_map.2 (ih hshapely)
  | asToken h _ =>
    simp only [Expr.all, Expr.isShapely, Bool.and_eq_true] at hshapely
    exact hshaped _ h hshapely.1
  | asRule h _ =>
    simp only [Expr.all, Expr.isShapely, Bool.and_eq_true] at hshapely
    exact hshaped _ h hshapely.1

/-- The alternatives of an expression that gives no role have none. -/
theorem IsAlternative.role_eq_none {number : N → Nat} {base : Nat}
    (h : IsAlternative number base bodies e steps) (hbare : e.all Expr.isBare = true) :
    ∀ s ∈ steps, s.role = none := by
  induction h with
  | token rank side => exact List.forall_mem_singleton.2 rfl
  | rule rank side => exact List.forall_mem_singleton.2 rfl
  | seqNil => exact List.forall_mem_nil _
  | seqCons _ _ ihFirst ihOthers =>
    obtain ⟨hfirst, hothers⟩ := Expr.all_seq_cons hbare rfl
    exact List.forall_mem_append.2 ⟨ihFirst hfirst, ihOthers hothers⟩
  | choice hmem _ ih => exact ih (Expr.all_of_choice hbare hmem)
  | many1 rank side _ _ _ => exact List.forall_mem_singleton.2 rfl
  | ranked _ halike ih =>
    exact Steps.forall_mem_alike (fun s t h hs => h.role ▸ hs) halike (ih hbare)
  | role _ _ => cases hbare
  | asToken _ ih => exact List.forall_mem_map.2 (ih hbare)
  | asRule _ ih => exact List.forall_mem_map.2 (ih hbare)

end Alternatives

/-! ### Meaning -/

section Meaning

variable [DecidableEq T] [DecidableEq N] [DecidableEq R]

namespace Language

variable (l : Language T N R)

/-- Whether an expression of a language has an alternative. -/
def HasAlternative (e : Expr T N R) (steps : Steps T N R) : Prop :=
  IsAlternative l.number l.rules.length l.flattened.2.bodies e steps

/-- The expressions that a symbol stands for. -/
inductive Stands : Symbol T → Expr T N R → Prop
  | token {t : T} : Stands (.token t) (.token t)
  | rule {n : N} : Stands (.rule (l.number n)) (.rule n)
  | many1 {i : Nat} {body : List (Steps T N R)} {e : Expr T N R} :
    l.flattened.2.bodies[i]? = some body → (∀ steps ∈ body, l.HasAlternative e steps) →
      e.all (Expr.isShapely l.isInlined) = true → Stands (.rule (l.rules.length + i)) (.many1 e)

/-- Whether a symbol means given nodes: all that it stands for describes them. -/
def Means (X : Symbol T) (nodes : List (Node T N R)) : Prop :=
  ∀ e, l.Stands X e → l.Describes e nodes

/-- Whether nodes are read by steps, each from what its symbol means. -/
inductive Reads : Steps T N R → List (Node T N R) → Prop
  | nil : Reads [] []
  | cons {s : Step T N R} {rest : Steps T N R} {part others : List (Node T N R)} :
    l.Means s.symbol part → Reads rest others → Reads (s :: rest) (s.shows part ++ others)

namespace Reads

variable {l} {s : Step T N R} {steps rest alike : Steps T N R} {nodes : List (Node T N R)}

theorem nil_iff : l.Reads [] nodes ↔ nodes = [] := by
  constructor
  · intro h
    cases h
    rfl
  · rintro rfl
    exact .nil

/-- Steps read what the first shows, and then what the others read. -/
theorem cons_iff :
    l.Reads (s :: rest) nodes ↔
      ∃ part others, nodes = s.shows part ++ others ∧ l.Means s.symbol part ∧
        l.Reads rest others := by
  constructor
  · intro h
    cases h with
    | cons hpart hothers => exact ⟨_, _, rfl, hpart, hothers⟩
  · rintro ⟨part, others, rfl, hpart, hothers⟩
    exact .cons hpart hothers

theorem singleton_iff :
    l.Reads [s] nodes ↔ ∃ part, nodes = s.shows part ∧ l.Means s.symbol part := by
  simp [cons_iff, nil_iff]

/-- Steps one behind the other read what each reads. -/
theorem append_iff :
    l.Reads (steps ++ rest) nodes ↔
      ∃ first others, nodes = first ++ others ∧ l.Reads steps first ∧ l.Reads rest others := by
  constructor
  · intro h
    induction steps generalizing nodes with
    | nil => exact ⟨[], nodes, rfl, .nil, h⟩
    | cons s steps ih =>
      cases h with
      | cons hpart h =>
        obtain ⟨first, others, rfl, hfirst, hothers⟩ := ih h
        exact ⟨_, others, (List.append_assoc ..).symm, .cons hpart hfirst, hothers⟩
  · rintro ⟨first, others, rfl, hfirst, hothers⟩
    induction hfirst with
    | nil => exact hothers
    | cons hpart _ ih =>
      rw [List.append_assoc]
      exact .cons hpart ih

/-- Steps that are alike read the same. -/
theorem of_alike (halike : List.Forall₂ Step.Alike steps alike) (h : l.Reads alike nodes) :
    l.Reads steps nodes := by
  induction halike generalizing nodes with
  | nil => exact h
  | cons hs _ ih =>
    cases h with
    | cons hpart h =>
      rw [← hs.shows_eq]
      exact .cons (hs.symbol ▸ hpart) (ih h)

/-- Steps in a role read nodes in it. -/
theorem of_inRole {r : R} (h : l.Reads (steps.map (·.inRole r)) nodes) :
    ∃ inner, nodes = inner.map (·.withRole r) ∧ l.Reads steps inner := by
  induction steps generalizing nodes with
  | nil => exact ⟨[], nil_iff.1 h, .nil⟩
  | cons s steps ih =>
    cases h with
    | cons hpart h =>
      obtain ⟨inner, rfl, hinner⟩ := ih h
      refine ⟨_, ?_, .cons hpart hinner⟩
      rw [List.map_append, Step.shows_inRole]

end Reads

variable {l} {e : Expr T N R} {steps : Steps T N R} {nodes : List (Node T N R)}

/-- One symbol in another shape reads what it means in this shape. -/
theorem Reads.of_shown (hwf : l.WellFormed) (h : l.HasAlternative e steps)
    (hsymbol : e.isSymbol l.isInlined = true) (shown : Shown T N)
    (hreads : l.Reads (steps.map (·.showing shown)) nodes) :
    ∃ (s : Step T N R) (part : List (Node T N R)),
      nodes = (s.showing shown).shape part ∧ l.Reads steps part := by
  obtain ⟨s, rfl, hrole, hshown, -⟩ := h.of_isSymbol hwf.number_injective hsymbol
  obtain ⟨part, rfl, hpart⟩ := Reads.singleton_iff.1 hreads
  refine ⟨s, part, Step.shows_eq_shape hrole, Reads.singleton_iff.2 ⟨part, ?_, hpart⟩⟩
  exact (Step.shows_eq_self hrole hshown).symm

/-- What an alternative of an expression reads, the expression describes. -/
theorem describes_of_reads (hwf : l.WellFormed) (h : l.HasAlternative e steps)
    (hshapely : e.all (Expr.isShapely l.isInlined) = true) (hreads : l.Reads steps nodes) :
    l.Describes e nodes := by
  -- A step without a role that shows its own kind reads what its symbol means.
  have hsingle {X : Symbol T} {e : Expr T N R} {rank : Int} {side : Option Side}
      {nodes : List (Node T N R)} (hstands : l.Stands X e)
      (hreads : l.Reads [⟨X, rank, side, none, none⟩] nodes) : l.Describes e nodes := by
    obtain ⟨part, hnodes, hpart⟩ := Reads.singleton_iff.1 hreads
    rw [hnodes, Step.shows_eq_self rfl rfl]
    exact hpart e hstands
  induction h generalizing nodes with
  | token rank side => exact hsingle .token hreads
  | rule rank side => exact hsingle .rule hreads
  | seqNil =>
    rw [Reads.nil_iff.1 hreads]
    exact .seqNil
  | seqCons _ _ ihFirst ihOthers =>
    obtain ⟨hfirst, hothers⟩ := Expr.all_seq_cons hshapely rfl
    obtain ⟨first, others, rfl, hreadsFirst, hreadsOthers⟩ := Reads.append_iff.1 hreads
    exact .seqCons (ihFirst hfirst hreadsFirst) (ihOthers hothers hreadsOthers)
  | choice hmem _ ih => exact .choice hmem (ih (Expr.all_of_choice hshapely hmem) hreads)
  | many1 rank side hbody halternatives _ =>
    exact hsingle (.many1 hbody halternatives hshapely) hreads
  | ranked _ halike ih => exact .ranked (ih hshapely (hreads.of_alike halike))
  | role _ ih =>
    obtain ⟨inner, rfl, hinner⟩ := hreads.of_inRole
    exact .role (ih hshapely hinner)
  | asToken h ih =>
    simp only [Expr.all, Expr.isShapely, Bool.and_eq_true] at hshapely
    obtain ⟨s, part, rfl, hpart⟩ := Reads.of_shown hwf h hshapely.1 _ hreads
    exact .asToken (ih hshapely.2 hpart)
  | asRule h ih =>
    simp only [Expr.all, Expr.isShapely, Bool.and_eq_true] at hshapely
    obtain ⟨s, part, rfl, hpart⟩ := Reads.of_shown hwf h hshapely.1 _ hreads
    exact .asRule (ih hshapely.2 hpart)

/-! ### Writing out inlined rules -/

/-- What the steps read that stand for a step, it shows of what they stand for. -/
theorem Reads.of_replaceBy {s : Step T N R} {body : Steps T N R} (hshown : s.shown = none)
    (hbare : ∀ b ∈ body, b.role = none) (h : l.Reads (s.replaceBy body) nodes) :
    ∃ inner, nodes = s.shows inner ∧ l.Reads body inner := by
  replace h : l.Reads (body.map fun b =>
      { b with role := s.role <|> b.role, shown := s.shown <|> b.shown }) nodes := by
    refine Reads.of_alike (Steps.alike_modifyLast ?_ _) h
    exact fun _ => ⟨rfl, rfl, rfl⟩
  rw [hshown] at h
  cases hrole : s.role with
  | none =>
    rw [hrole] at h
    refine ⟨nodes, (Step.shows_eq_self hrole hshown).symm, h.of_alike ?_⟩
    exact List.forall₂_map_right_iff.2 (List.forall₂_same.2 fun _ _ => ⟨rfl, rfl, rfl⟩)
  | some r =>
    rw [hrole, List.map_congr_left (g := (·.inRole r))] at h
    · obtain ⟨inner, rfl, hinner⟩ := h.of_inRole
      refine ⟨inner, ?_, hinner⟩
      rw [Step.shows, hrole, Step.shape, hshown]
    · intro b hb
      simp [Step.inRole, hbare b hb]

/-- Whether what is written out in place of the numbers of rules means what these do. -/
def Inlines (l : Language T N R) (inlined : Nat → Option (List (Steps T N R))) : Prop :=
  ∀ i bodies, inlined i = some bodies → ∃ n, l.number n = i ∧ l.isInlined n = true ∧
    ∀ body ∈ bodies, (∀ b ∈ body, b.role = none) ∧ (∀ b ∈ body, l.IsInlinable b) ∧
      ∀ nodes, l.Reads body nodes → l.Means (.rule i) nodes

/-- What steps read behind inlining, they read before. -/
theorem reads_of_mem_inlineSteps {inlined : Nat → Option (List (Steps T N R))}
    {written : Steps T N R} {depth : Nat} (hinlined : l.Inlines inlined)
    (hinlinable : ∀ s ∈ steps, l.IsInlinable s) (h : written ∈ inlineSteps inlined depth steps)
    (hreads : l.Reads written nodes) : l.Reads steps nodes := by
  -- The steps of an inlined rule are written out less deep, those behind it as deep.
  induction depth generalizing steps written nodes with
  | zero =>
    cases steps with
    | nil =>
      rw [inlineSteps] at h
      rwa [List.mem_singleton.1 h] at hreads
    | cons s rest =>
      rw [inlineSteps] at h
      rwa [List.mem_singleton.1 h] at hreads
      exact List.cons_ne_nil _ _
  | succ depth ihDepth =>
    induction steps generalizing written nodes with
    | nil =>
      rw [inlineSteps] at h
      rwa [List.mem_singleton.1 h] at hreads
    | cons s rest ihRest =>
      rw [inlineSteps] at h
      obtain ⟨head, hhead, h⟩ := List.mem_flatMap.1 h
      obtain ⟨others, hothers, rfl⟩ := List.mem_map.1 h
      obtain ⟨first, behind, rfl, hfirst, hbehind⟩ := Reads.append_iff.1 hreads
      rw [List.forall_mem_cons] at hinlinable
      suffices hone : l.Reads [s] first by
        obtain ⟨part, rfl, hpart⟩ := Reads.singleton_iff.1 hone
        exact .cons hpart (ihRest hinlinable.2 hothers hbehind)
      cases hsymbol : s.symbol with
      | token t =>
        rw [hsymbol] at hhead
        rwa [List.mem_singleton.1 hhead] at hfirst
      | rule i =>
        rw [hsymbol] at hhead
        dsimp only at hhead
        split at hhead
        · rwa [List.mem_singleton.1 hhead] at hfirst
        · rename_i bodies hbodies
          obtain ⟨body, hbody, hhead⟩ := List.mem_flatMap.1 hhead
          obtain ⟨n, rfl, hn, hmeans⟩ := hinlined i bodies hbodies
          obtain ⟨hbare, hown, hmeans⟩ := hmeans body hbody
          have hshown := hinlinable.1 n hsymbol hn
          have hreads := ihDepth (isInlinable_replaceBy hshown hown) hhead hfirst
          obtain ⟨inner, rfl, hinner⟩ := hreads.of_replaceBy hshown hbare
          exact Reads.singleton_iff.2 ⟨inner, rfl, hsymbol ▸ hmeans inner hinner⟩

/-! ### Productions -/

section

variable {n : N} {i : Nat}

/-- The number of a rule stands for the rule. -/
theorem stands_number_iff (hwf : l.WellFormed) :
    l.Stands (.rule (l.number n)) e ↔ e = .rule n := by
  constructor
  · intro h
    generalize hsymbol : Symbol.rule (l.number n) = X at h
    cases h with
    | token => cases hsymbol
    | rule => rw [hwf.number_injective (Symbol.rule.inj hsymbol)]
    | many1 _ _ _ =>
      have hlt := hwf.number_lt n
      rw [Symbol.rule.inj hsymbol] at hlt
      exact absurd hlt (Nat.not_lt.2 (Nat.le_add_right ..))
  · rintro rfl
    exact .rule

/-- A number beyond those of the rules stands for repetitions alone. -/
theorem exists_of_stands_repetition (hwf : l.WellFormed) {body : List (Steps T N R)}
    (hbody : l.flattened.2.bodies[i]? = some body)
    (h : l.Stands (.rule (l.rules.length + i)) e) :
    ∃ inner, e = .many1 inner ∧ (∀ steps ∈ body, l.HasAlternative inner steps) ∧
      inner.all (Expr.isShapely l.isInlined) = true := by
  generalize hsymbol : Symbol.rule (l.rules.length + i) = X at h
  cases h with
  | token => cases hsymbol
  | @rule n =>
    have hlt := hwf.number_lt n
    rw [← Symbol.rule.inj hsymbol] at hlt
    exact absurd hlt (Nat.not_lt.2 (Nat.le_add_right ..))
  | many1 hbody' halternatives hshapely =>
    cases Nat.add_left_cancel (Symbol.rule.inj hsymbol)
    cases hbody.symm.trans hbody'
    exact ⟨_, rfl, halternatives, hshapely⟩

/-- What a production shows of its nodes: a node of its rule, if the rule has one. -/
def enclose (l : Language T N R) (i : Nat) (nodes : List (Node T N R)) : List (Node T N R) :=
  match (Engine.ofLanguage l).shown.getD i none with
  | some n => [.branch n none nodes]
  | none => nodes

/-- A rule encloses its nodes in one, unless it is hidden. -/
theorem enclose_number (hwf : l.WellFormed) (h : (n, e) ∈ l.rules) :
    l.enclose (l.number n) nodes = if l.isHidden n then nodes else [.branch n none nodes] := by
  have hfind : (l.rules.map (·.1)).find? (fun other => l.number other == l.number n) = some n := by
    cases hfind : (l.rules.map (·.1)).find? (fun other => l.number other == l.number n) with
    | none =>
      have hnone := List.find?_eq_none.1 hfind n (List.mem_map_of_mem h)
      exact absurd BEq.rfl hnone
    | some other =>
      have hsame := List.find?_some hfind
      rw [hwf.number_injective (beq_iff_eq.1 hsame)]
  have hshown : (Engine.ofLanguage l).shown.getD (l.number n) none =
      ((l.rules.map (·.1)).find? fun other => l.number other == l.number n).filter
        fun n => !l.isHidden n := by
    rw [Engine.ofLanguage]
    simp [-List.find?_map, hwf.number_lt n]
  rw [enclose, hshown, hfind, Option.filter_some]
  cases l.isHidden n <;> rfl

theorem enclose_repetition : l.enclose (l.rules.length + i) nodes = nodes := by
  simp [enclose, Engine.ofLanguage]

end

/-- What is written out flat are alternatives of the rules. -/
theorem exists_of_mem_flattened {row : N × List (Steps T N R)} (h : row ∈ l.flattened.1) :
    ∃ e, (row.1, e) ∈ l.rules ∧ ∀ steps ∈ row.2, l.HasAlternative e steps :=
  (flattens_rules l.number l.rules ⟨l.rules.length, []⟩).2.2 row h

theorem base_flattened : l.flattened.2.base = l.rules.length :=
  (flattens_rules l.number l.rules ⟨l.rules.length, []⟩).1

/-- What a rule describes, its number means. -/
theorem means_of_describes (hwf : l.WellFormed) {n : N} (hmem : (n, e) ∈ l.rules)
    (h : l.Describes e nodes) : l.Means (.rule (l.number n)) (l.enclose (l.number n) nodes) := by
  intro other hother
  rw [(stands_number_iff hwf).1 hother, enclose_number hwf hmem]
  split
  · rename_i hhidden
    exact .hidden hmem hhidden h
  · rename_i hshown
    exact .branch hmem (Bool.eq_false_iff.2 hshown) h

/-- What stands for the rules that are written out in place of their names. -/
def inlined (l : Language T N R) (i : Nat) : Option (List (Steps T N R)) :=
  (l.flattened.1.find? fun (n, _) => l.number n == i && l.isInlined n).map (·.2)

theorem inlines_inlined (hwf : l.WellFormed) : l.Inlines l.inlined := by
  intro i bodies hbodies
  obtain ⟨⟨n, alternatives⟩, hrow, rfl⟩ := Option.map_eq_some_iff.1 hbodies
  have hn := List.find?_some hrow
  simp only [Bool.and_eq_true, beq_iff_eq] at hn
  obtain ⟨rfl, hn⟩ := hn
  obtain ⟨e, hmem, halternatives⟩ := exists_of_mem_flattened (List.mem_of_find?_eq_some hrow)
  have hshapely := hwf.isShapely n e hmem
  refine ⟨n, rfl, hn, fun body hbody => ?_⟩
  have halternative := halternatives body hbody
  refine ⟨halternative.role_eq_none (hwf.isBare n e hmem hn),
    halternative.isInlinable hwf hshapely, fun nodes hreads => ?_⟩
  have hmeans := means_of_describes hwf hmem (describes_of_reads hwf halternative hshapely hreads)
  rwa [enclose_number hwf hmem, if_pos (hwf.isHidden_of_isInlined n hn)] at hmeans

/-- A production is an alternative of a rule, or one of a repetition: what is repeated, behind
    the repetition or alone. -/
theorem exists_of_mem_productions {p : Production T N R} (h : p ∈ l.productions) :
    ∃ steps, p.steps ∈ inlineSteps l.inlined inlineDepth steps ∧
      ((∃ n alternatives, (n, alternatives) ∈ l.flattened.1 ∧ p.rule = l.number n ∧
          steps ∈ alternatives) ∨
        ∃ i body, l.flattened.2.bodies[i]? = some body ∧ p.rule = l.flattened.2.base + i ∧
          ∃ one ∈ body, steps = one ∨ steps = ⟨.rule p.rule, 0, none, none, none⟩ :: one) := by
  have heq : l.productions =
      ((l.flattened.1.filter fun row => !l.isInlined row.1).map
          (fun row => (l.number row.1, row.2)) ++
        l.flattened.2.bodies.zipIdx.map fun row =>
          (l.flattened.2.base + row.2,
            row.1.map (⟨.rule (l.flattened.2.base + row.2), 0, none, none, none⟩ :: ·) ++
              row.1)).flatMap
        fun row => (row.2.flatMap (inlineSteps l.inlined inlineDepth)).eraseDups.map
          fun steps => ⟨row.1, steps⟩ := rfl
  rw [heq] at h
  obtain ⟨row, hrow, hp⟩ := List.mem_flatMap.1 h
  obtain ⟨written, hwritten, rfl⟩ := List.mem_map.1 hp
  obtain ⟨steps, hsteps, hwritten⟩ := List.mem_flatMap.1 (List.mem_eraseDups.1 hwritten)
  refine ⟨steps, hwritten, ?_⟩
  rcases List.mem_append.1 hrow with hrow | hrow
  · obtain ⟨⟨n, alternatives⟩, hnamed, rfl⟩ := List.mem_map.1 hrow
    exact .inl ⟨n, alternatives, (List.mem_filter.1 hnamed).1, rfl, hsteps⟩
  · obtain ⟨⟨body, i⟩, hbody, rfl⟩ := List.mem_map.1 hrow
    refine .inr ⟨i, body, List.mem_zipIdx_iff_getElem?.1 hbody, rfl, ?_⟩
    rcases List.mem_append.1 hsteps with hsteps | hsteps
    · obtain ⟨one, hone, rfl⟩ := List.mem_map.1 hsteps
      exact ⟨one, hone, .inr rfl⟩
    · exact ⟨steps, hsteps, .inl rfl⟩

/-- The nodes that a production reads, the rule of the production means. -/
theorem means_of_mem_productions (hwf : l.WellFormed) {p : Production T N R}
    (hp : p ∈ l.productions) (h : l.Reads p.steps nodes) :
    l.Means (.rule p.rule) (l.enclose p.rule nodes) := by
  obtain ⟨steps, hwritten, ⟨n, alternatives, hrow, hrule, hsteps⟩ |
    ⟨i, body, hbody, hrule, one, hone, hsteps⟩⟩ := exists_of_mem_productions hp
  · obtain ⟨e, hmem, halternatives⟩ := exists_of_mem_flattened hrow
    have halternative := halternatives steps hsteps
    have hshapely := hwf.isShapely n e hmem
    rw [hrule]
    refine means_of_describes hwf hmem (describes_of_reads hwf halternative hshapely ?_)
    exact reads_of_mem_inlineSteps (inlines_inlined hwf) (halternative.isInlinable hwf hshapely)
      hwritten h
  · rw [base_flattened] at hrule
    rw [hrule] at hsteps ⊢
    rw [enclose_repetition]
    -- Several expressions may have the same alternatives, and share a repetition.
    intro e hstands
    obtain ⟨inner, rfl, halternatives, hshapely⟩ := exists_of_stands_repetition hwf hbody hstands
    have halternative := halternatives one hone
    have hinlinable := halternative.isInlinable hwf hshapely
    rcases hsteps with rfl | rfl
    · have hreads := reads_of_mem_inlineSteps (inlines_inlined hwf) hinlinable hwritten h
      exact .once (describes_of_reads hwf halternative hshapely hreads)
    · have hreads := reads_of_mem_inlineSteps (inlines_inlined hwf)
        (List.forall_mem_cons.2 ⟨fun _ _ _ => rfl, hinlinable⟩) hwritten h
      obtain ⟨before, others, rfl, hbefore, hothers⟩ := Reads.cons_iff.1 hreads
      rw [Step.shows_eq_self rfl rfl]
      exact .again (hbefore _ hstands) (describes_of_reads hwf halternative hshapely hothers)

end Language

end Meaning

end RepoAtlas.Syntax
