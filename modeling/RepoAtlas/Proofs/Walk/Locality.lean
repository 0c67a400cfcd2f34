import RepoAtlas.Proofs.Cache.Agreement
import RepoAtlas.Proofs.FileSystem.Change
import RepoAtlas.Proofs.Walk.Mirror

/-!
# What is below a directory stays there

A walk tells the same of everything that is not below a directory, whatever is
below it (`run_local`): the rules of a rule file speak of nothing outside the
directory that it stands in, and what the cache learns of one file it says of no
other, unless both have the same path on record. Two file systems that agree outside a
directory (`DifferBelow`) may thus have any files, subdirectories and rule files in it,
as long as no link from outside leads through it and no file in it that is read shares
its path on record with one outside (`IsApart`). Where all names are texts, none does.

* `lookups_outside`: to tell what an entry outside is, nothing below is looked at;
* `survives_iff_outside`: outside, the same survives;
* `keptOf_listing`: the listings are the same but for what is below;
* `content?_eq_outside`: outside, the same is read;
* `visitAll_outside`: what is below makes no difference to what is told outside.
-/

namespace RepoAtlas.Walk

open Cache (AgreeUnder)
open Ignore RepoAtlas.Path

/-- Whether a place is not below a directory. -/
def Outside (d place : Place) : Prop := d <+: place → d = place

instance (d place : Place) : Decidable (Outside d place) :=
  inferInstanceAs (Decidable (d <+: place → d = place))

/-- Whether two file systems agree on all that is not below a directory, and no
    link that is not below it leads through what is. -/
structure DifferBelow (d : Place) (fs other : FileSystem) : Prop where
  directory : ∃ entries, fs.nodeAt? d = some (.directory entries)
  agree : fs.AgreeOn (Outside d) other
  links : ∀ place target, fs.nodeAt? place = some (.link target) → Outside d place →
    ∀ p ∈ fs.lookupsOf (ofNames place), Outside d p

variable {fs other : FileSystem} {d place names : Place} {s : Bytes} {kind : Kind}
  {entries : Entries} {cache : Database} {path : Bytes} {l l' : List Sight} {x : Sight}

/-- What is seen, without what is below a directory. -/
def keptOf (d : Place) (l : List Sight) : List Sight :=
  l.filter fun x => !isBelow (ofNames d) x.path

/-- The records of what is seen, without those of what is below a directory. -/
def recordsOutside (d : Place) (l : List Sight) (records : List Record) : List Record :=
  ((l.zip records).filter fun p => !isBelow (ofNames d) p.1.path).map (·.2)

/-- Whether no file that is read below a directory has the path on record of one that is
    read elsewhere. -/
def IsApart (fs : FileSystem) (d : Place) (l : List Sight) : Prop :=
  ∀ x ∈ l, ∀ y ∈ l, isBelow (ofNames d) x.path = true → isBelow (ofNames d) y.path = false →
    (x.content? fs).isSome → (y.content? fs).isSome → text x.path ≠ text y.path

/-! ### Places outside -/

theorem outside_of_prefix {p : Place} (hp : p <+: place) (h : Outside d place) : Outside d p := by
  intro hfront
  have heq := h (hfront.trans hp)
  exact hfront.eq_of_length_le (heq ▸ hp.length_le)

theorem isRegion_outside (d : Place) : FileSystem.IsRegion (Outside d) where
  root h := List.prefix_nil.1 h
  above := outside_of_prefix (List.dropLast_prefix _)

/-- The entries of a directory are outside, if it neither is the other one nor is
    below it. -/
theorem outside_append_singleton : Outside d (names ++ [s]) ↔ ¬d <+: names := by
  constructor
  · intro h hfront
    have heq := h (hfront.trans (List.prefix_append names [s]))
    have hlength := hfront.length_le
    rw [heq, List.length_append, List.length_singleton] at hlength
    omega
  · intro h hfront
    exact (List.prefix_concat_iff.1 hfront).resolve_right h

namespace DifferBelow

variable (h : DifferBelow d fs other)

include h

theorem isName (hfs : fs.WellFormed) : ∀ s ∈ d, IsName s := by
  obtain ⟨entries, hd⟩ := h.directory
  exact FileSystem.isName_of_nodeAt? hfs hd

/-- To tell what an entry of a directory outside is, nothing below is looked at. -/
theorem lookups_outside (hfs : fs.WellFormed)
    (hnames : fs.nodeAt? names = some (.directory entries))
    (hs : IsName s) (hout : ¬d <+: names) :
    ∀ p ∈ fs.lookupsOf (ofNames (names ++ [s])), Outside d p := by
  intro p hp
  have hplace : Outside d (names ++ [s]) := outside_append_singleton.2 hout
  by_cases hlink : ∃ target, fs.nodeAt? (names ++ [s]) = some (.link target)
  · obtain ⟨target, htarget⟩ := hlink
    exact h.links _ target htarget hplace p hp
  · have hall : ∀ t ∈ names ++ [s], IsName t := by
      simpa [or_imp, forall_and] using ⟨FileSystem.isName_of_nodeAt? hfs hnames, hs⟩
    have hparent : fs.nodeAt? (names ++ [s]).dropLast = some (.directory entries) := by
      rwa [List.dropLast_concat]
    exact outside_of_prefix (FileSystem.prefix_of_mem_lookupsOf hall (List.concat_ne_nil _ _)
      hparent (not_exists.1 hlink) hp) hplace

/-! ### What survives outside -/

/-- Outside, the same rule files are read. -/
theorem scopeOf?_eq (hfs : fs.WellFormed) (hnames : fs.nodeAt? names = some (.directory entries))
    (hout : ¬d <+: names) : scopeOf? fs (ofNames names) = scopeOf? other (ofNames names) := by
  have hrule : IsName ruleFile := by decide
  rw [scopeOf?, scopeOf?, join_ofNames (FileSystem.isName_of_nodeAt? hfs hnames) hrule,
    h.agree.readContent_eq (isRegion_outside d) (h.lookups_outside hfs hnames hrule hout)]

omit h in
/-- Without artifacts, the rules that always hold are the same everywhere. -/
theorem builtin_eq (root : Bytes) :
    builtin fs.resolveParts root [] = builtin other.resolveParts root [] := by
  rw [builtin, builtin, ruleTexts, ruleTexts, List.filterMap_nil, List.filterMap_nil]

/-- For the entries of a directory outside, the same rules hold. -/
theorem rulesFor_eq (hfs : fs.WellFormed)
    (hnames : fs.nodeAt? (place ++ names) = some (.directory entries))
    (hout : ¬d <+: place ++ names) :
    rulesFor fs [] place (names ++ [s]) = rulesFor other [] place (names ++ [s]) := by
  induction names using List.reverseRecOn generalizing s entries with
  | nil =>
    rw [rulesFor_append, rulesFor_append, h.scopeOf?_eq hfs hnames hout, rulesFor, rulesFor,
      builtin_eq]
    rfl
  | append_singleton names t ih =>
    rw [← List.append_assoc] at hnames hout
    obtain ⟨above, habove⟩ := FileSystem.exists_directory_of_append hnames
    have hfront : ¬d <+: place ++ names := fun hd => hout (hd.trans (List.prefix_append _ _))
    rw [rulesFor_append (names ++ [t]), rulesFor_append (names ++ [t]), ih habove hfront,
      ← List.append_assoc, h.scopeOf?_eq hfs hnames hout]

/-- Outside, the same directories tell their entries. -/
theorem isListed_eq (hfs : fs.WellFormed) (hnames : fs.nodeAt? names = some (.directory entries))
    (hout : ¬d <+: names) : fs.isListed (ofNames names) = other.isListed (ofNames names) := by
  refine h.agree.isListed_eq (isRegion_outside d) ?_
  obtain rfl | ⟨front, s, rfl⟩ := List.eq_nil_or_concat names
  · exact fun p hp => absurd hp List.not_mem_nil
  · rw [List.concat_eq_append] at hnames hout ⊢
    obtain ⟨above, habove⟩ := FileSystem.exists_directory_of_append hnames
    have hs : IsName s := FileSystem.isName_of_nodeAt? hfs hnames s (by simp)
    exact h.lookups_outside hfs habove hs fun hd => hout (hd.trans (List.prefix_append _ _))

/-- Outside, the same survives. -/
theorem survives_iff_outside (hfs : fs.WellFormed) (hout : ¬d <+: place ++ names) :
    Survives fs [] place (names ++ [s]) kind ↔ Survives other [] place (names ++ [s]) kind := by
  have hplace : Outside d (place ++ (names ++ [s])) := by
    rw [← List.append_assoc]
    exact outside_append_singleton.2 hout
  -- What is there is the same, and if anything is, it is in a directory in both.
  have hparent {node : Node} (hnode : fs.nodeAt? (place ++ (names ++ [s])) = some node) :
      ∃ entries, fs.nodeAt? (place ++ names) = some (.directory entries) := by
    rw [← List.append_assoc] at hnode
    obtain ⟨entries, hentries, -⟩ := FileSystem.nodeAt?_append_singleton.1 hnode
    exact ⟨entries, hentries⟩
  rcases FileSystem.cases_of_face (h.agree.face _ hplace) with ⟨hnode, hnode'⟩ |
    ⟨below, below', hnode, hnode'⟩ | ⟨node, hnot, hnode, hnode'⟩
  · simp [Survives, hnode, hnode']
  · obtain ⟨entries, hentries⟩ := hparent hnode
    cases kind <;> simp [Survives, hnode, hnode', IsSeenAs, h.rulesFor_eq hfs hentries hout,
      h.isListed_eq hfs hentries hout]
  · obtain ⟨entries, hentries⟩ := hparent hnode
    have hs : IsName s := FileSystem.isName_of_nodeAt? hfs hnode s (by simp)
    have hlooked := h.lookups_outside hfs hentries hs hout
    rw [List.append_assoc] at hlooked
    have hdirectory := h.agree.isDirectory_eq (isRegion_outside d) hlooked
    cases kind <;>
      simp [Survives, hnode, hnode', IsSeenAs, h.rulesFor_eq hfs hentries hout, hdirectory,
        h.isListed_eq hfs hentries hout]

/-! ### Listings -/

omit h in
/-- A listing of what is below a directory keeps nothing. -/
theorem keptOf_eq_nil (hfs : fs.WellFormed) (hd : d <+: place ++ names)
    (hl : Listing fs [] place names l) : keptOf d l = [] := by
  rw [keptOf, List.filter_eq_nil_iff]
  intro x hx
  obtain ⟨further, kind, hreached, rfl⟩ := hl.mem_iff.1 hx
  have hnames := hreached.survives.isName hfs
  rw [← List.append_assoc] at hnames
  have hfront : d <+: place ++ names ++ further := hd.trans (List.prefix_append _ _)
  have hne : d ≠ place ++ names ++ further := by
    rintro heq
    have hlength := hd.length_le
    rw [heq, List.length_append] at hlength
    rw [List.eq_nil_of_length_eq_zero (l := further) (by omega)] at hreached
    exact hreached.elim
  have hbelow := (isBelow_ofNames (fun s hs => hnames s (hfront.subset hs)) hnames).2
    ⟨hfront, hne⟩
  rw [sightOf, ← List.append_assoc, hbelow]
  exact Bool.false_ne_true

/-- Listings are the same but for what is below. -/
theorem keptOf_listing (hfs : fs.WellFormed) (hother : other.WellFormed)
    (hl : Listing fs [] place names l) (hl' : Listing other [] place names l') :
    keptOf d l = keptOf d l' := by
  induction hl generalizing l' with
  | @directory names files directories sub hfiles hmemFiles hdirectories hmemDirectories hsub ih =>
    by_cases hd : d <+: place ++ names
    · rw [keptOf_eq_nil hother hd hl', keptOf_eq_nil hfs hd
        (.directory hfiles hmemFiles hdirectories hmemDirectories hsub)]
    · -- The directory has the same entries in both, and so has every one below it that
      -- is not below the other directory.
      cases hl' with
      | directory hfiles' hmemFiles' hdirectories' hmemDirectories' hsub' =>
        cases eq_of_inByteOrder hfiles hfiles' fun s => (hmemFiles s).trans
          ((h.survives_iff_outside hfs hd).trans (hmemFiles' s).symm)
        cases eq_of_inByteOrder hdirectories hdirectories' fun s => (hmemDirectories s).trans
          ((h.survives_iff_outside hfs hd).trans (hmemDirectories' s).symm)
        rw [keptOf, keptOf, List.filter_append, List.filter_append, List.filter_flatMap,
          List.filter_flatMap]
        refine congrArg _ (List.flatMap_congr fun s hs => ?_)
        have hrest := ih s hs (hsub' s hs)
        rw [keptOf, keptOf] at hrest
        rw [List.filter_cons, List.filter_cons, hrest]

/-! ### Records -/

/-- Outside, the same is read. -/
theorem content?_eq_outside (hfs : fs.WellFormed) (hl : Listing fs [] place [] l)
    (hx : x ∈ keptOf d l) : x.content? fs = x.content? other := by
  obtain ⟨hx, hkept⟩ := List.mem_filter.1 hx
  obtain ⟨names, kind, hreached, rfl⟩ := hl.mem_iff.1 hx
  have hsurvives := hreached.survives
  rw [List.nil_append] at hsurvives hkept ⊢
  obtain ⟨front, last, rfl⟩ := (List.eq_nil_or_concat names).resolve_left fun hnil => by
    rw [hnil] at hreached
    exact hreached.elim
  have hnames := hsurvives.isName hfs
  obtain ⟨-, node, hnode, -⟩ := hsurvives
  rw [List.concat_eq_append, ← List.append_assoc] at hnode hnames
  obtain ⟨entries, hentries, -⟩ := FileSystem.nodeAt?_append_singleton.1 hnode
  have hout : Outside d (place ++ front ++ [last]) := by
    intro hfront
    by_contra hd
    have hbelow := (isBelow_ofNames (h.isName hfs) hnames).2 ⟨hfront, hd⟩
    rw [sightOf, List.concat_eq_append, ← List.append_assoc, hbelow] at hkept
    cases hkept
  have hread : fs.read (ofNames (place ++ front ++ [last])) =
      other.read (ofNames (place ++ front ++ [last])) :=
    h.agree.read_eq (isRegion_outside d) (h.lookups_outside hfs hentries
      (hnames last (by simp)) (outside_append_singleton.1 hout))
  cases kind with
  | directory => rfl
  | file =>
    dsimp only [Sight.content?, sightOf]
    rw [List.concat_eq_append, ← List.append_assoc, hread]

end DifferBelow

/-! ### Visits side by side -/

section Visits

variable {P : String → Prop} {s t : State} {content : Bytes} {r : Record}

/-- Two caches that agree on the path of a record go on doing so when it is written. -/
theorem agreeUnder_remember (h : AgreeUnder P s.cache t.cache) :
    AgreeUnder P (remember s r).cache (remember t r).cache := by
  rw [remember, remember]
  cases Entry.ofRecord? r with
  | none => exact h
  | some e =>
    rcases h.insert e with ⟨_, _, hnext, hnext', hagree⟩ | ⟨_, herror, herror'⟩
    · dsimp only
      rw [hnext, hnext']
      exact hagree
    · dsimp only
      rw [herror, herror']
      exact h

/-- A visit of something outside: the same is told, and the caches go on agreeing. -/
theorem visit_outside (h : AgreeUnder P s.cache t.cache)
    (hcontent : x.content? fs = x.content? other)
    (hpath : (x.content? fs).isSome → P (text x.path)) :
    (visit fs s x).2 = (visit other t x).2 ∧
      AgreeUnder P (visit fs s x).1.cache (visit other t x).1.cache := by
  cases hread : x.content? fs with
  | none =>
    rw [visit_of_unread hread, visit_of_unread (hcontent ▸ hread)]
    refine ⟨rfl, ?_⟩
    dsimp only
    rwa [cache_passed, cache_passed]
  | some content =>
    have hknown := h.known?_eq (hpath (by rw [hread]; rfl))
    rw [visit_of_read hread, visit_of_read (hcontent ▸ hread), fill, fill, remembered?_eq,
      remembered?_eq, path_bare]
    dsimp only [State.opened]
    rw [hknown]
    cases (Cache.known? t.cache (text x.path)).filter
      fun e => e.isFreshFor (Sha256.hash content) with
    | some e => exact ⟨rfl, h⟩
    | none => exact ⟨rfl, agreeUnder_remember h⟩

/-- A visit of something below makes no difference to what the caches agree on. -/
theorem visit_below (h : AgreeUnder P s.cache t.cache)
    (hpath : (x.content? fs).isSome → ¬P (text x.path)) :
    AgreeUnder P (visit fs s x).1.cache t.cache := by
  cases hread : x.content? fs with
  | none => rwa [visit_of_unread hread, cache_passed]
  | some content =>
    rcases cache_visit fs s x with hcache | ⟨e, hpath', hinsert⟩
    · rwa [hcache]
    · exact h.insert_left hinsert (hpath' ▸ hpath (by rw [hread]; rfl))

/-- Outside, the same is told as if nothing below were visited. -/
theorem visitAll_outside (h : AgreeUnder P s.cache t.cache)
    (hcontent : ∀ x ∈ keptOf d l, x.content? fs = x.content? other)
    (hout : ∀ x ∈ l, isBelow (ofNames d) x.path = false → (x.content? fs).isSome →
      P (text x.path))
    (hbelow : ∀ x ∈ l, isBelow (ofNames d) x.path = true → (x.content? fs).isSome →
      ¬P (text x.path)) :
    recordsOutside d l (visitAll fs s l).2 = (visitAll other t (keptOf d l)).2 := by
  induction l generalizing s t with
  | nil => rfl
  | cons x l ih =>
    have hrestOut := fun y hy => hout y (List.mem_cons_of_mem x hy)
    have hrestBelow := fun y hy => hbelow y (List.mem_cons_of_mem x hy)
    rw [visitAll_cons, recordsOutside, List.zip_cons_cons, List.filter_cons]
    rw [keptOf, List.filter_cons] at hcontent ⊢
    cases hx : isBelow (ofNames d) x.path with
    | true =>
      rw [hx] at hcontent
      have hagree := visit_below h (hbelow x List.mem_cons_self hx)
      exact ih hagree hcontent hrestOut hrestBelow
    | false =>
      rw [hx] at hcontent
      obtain ⟨hrecord, hagree⟩ := visit_outside h (hcontent x List.mem_cons_self)
        (hout x List.mem_cons_self hx)
      have hrest := ih hagree (fun y hy => hcontent y (List.mem_cons_of_mem _ hy)) hrestOut
        hrestBelow
      exact List.cons_eq_cons.2 ⟨hrecord, hrest⟩

end Visits

/-- What is told of what is not below a directory depends on that alone. -/
theorem recordsOutside_collect (hagree : ∀ x ∈ keptOf d (survey fs [] place),
      x.content? fs = x.content? other) (hapart : IsApart fs d (survey fs [] place)) :
    recordsOutside d (survey fs [] place) (collect fs cache [] place).records =
      (visitAll other { cache } (keptOf d (survey fs [] place))).2 := by
  let P (path : String) : Prop := ∃ y ∈ survey fs [] place, isBelow (ofNames d) y.path = false ∧
    (y.content? fs).isSome ∧ text y.path = path
  refine visitAll_outside (P := P) (AgreeUnder.refl cache) hagree
    (fun x hx hout hread => ⟨x, hx, hout, hread, rfl⟩) fun x hx hbelow hread => ?_
  rintro ⟨y, hy, hout, hready, heq⟩
  exact hapart x hx y hy hbelow hout hread hready heq.symm

/-- Where all names are texts, nothing shares a path. -/
theorem isApart_of_hasTextNames (htext : fs.HasTextNames) (hl : Listing fs [] place [] l) :
    IsApart fs d l := by
  intro x hx y hy hbelow hout _ _ heq
  rw [Path.eq_of_text_eq (hl.isText_path htext hx) (hl.isText_path htext hy) heq, hout] at hbelow
  cases hbelow

/-- A link, and two directories; the first has rules that ignore everything. -/
def neighbours : FileSystem where
  entries :=
    .cons "r" (.directory
      (.cons "a" (.directory
        (.cons ".gitignore" (.file (.bytes (Utf8.encode "*\n"))) .nil))
      (.cons "b" (.directory (.cons "y.py" (.file (.bytes [])) .nil))
      (.cons "l" (.link "b/y.py") .nil)))) .nil

/-- The same, with another file in place of the rules. -/
def neighboursOther : FileSystem :=
  neighbours.setAt ["r", "a"] (.directory (.cons "z.py" (.file (.bytes [])) .nil))

/-- What is below a directory may be replaced. -/
theorem agreeOn_setAt (h : fs.nodeAt? d = some (.directory entries)) (below : Entries) :
    fs.AgreeOn (Outside d) (fs.setAt d (.directory below)) :=
  ⟨fun _ hplace => (Entries.face_setAt_directory below h hplace).symm, fun _ _ => Iff.rfl⟩

/-- Files that differ below a directory are made from others, if no link is led through
    it. -/
theorem differBelow_setAt (h : fs.nodeAt? d = some (.directory entries)) (below : Entries)
    (hlinks : ∀ place ∈ fs.links, Outside d place →
      ∀ p ∈ fs.lookupsOf (ofNames place), Outside d p) :
    DifferBelow d fs (fs.setAt d (.directory below)) :=
  ⟨⟨_, h⟩, agreeOn_setAt h below, fun place _ hlink =>
    hlinks place (FileSystem.mem_links_of_nodeAt? hlink)⟩

/-- The two directories that are shown alike, with no file in the first. -/
def twinsOther : FileSystem := twins.setAt ["r", [0x64, 0xFE]] (.directory .nil)

theorem survey_twinsOther : survey twinsOther [] ["r"] = [
    sightOf ["r"] [[0x64, 0xFE]] .directory,
    sightOf ["r"] [[0x64, 0xFF]] .directory, sightOf ["r"] [[0x64, 0xFF], "a.py"] .file] := by
  rw [survey_of_pairwise rfl rfl rfl rfl (by decide +kernel)]
  decide +kernel

/-- What is told of the file in the second directory depends on whether it is in the first
    as well: the cache then knows its content by its path on record. -/
theorem twins_not_local :
    twins.WellFormed ∧ twinsOther.WellFormed ∧ DifferBelow ["r", [0x64, 0xFE]] twins twinsOther ∧
      ∃ w w' l l', run twins Cache.empty [] "/r" = .ok w ∧
        run twinsOther Cache.empty [] "/r" = .ok w' ∧
        Listing twins [] ["r"] [] l ∧ w.records.map Record.shown = l.map Sight.shown ∧
        Listing twinsOther [] ["r"] [] l' ∧ w'.records.map Record.shown = l'.map Sight.shown ∧
        recordsOutside ["r", [0x64, 0xFE]] l w.records ≠
          recordsOutside ["r", [0x64, 0xFE]] l' w'.records := by
  have hroot : rootPlace twinsOther "/r" = .ok ["r"] := by decide +kernel
  have hl : Listing twins [] ["r"] [] _ := listing_of_rootPlace (by decide) rootPlace_twins
  have hl' : Listing twinsOther [] ["r"] [] _ := listing_of_rootPlace (by decide) hroot
  refine ⟨by decide, by decide, differBelow_setAt rfl _ (by decide +kernel), _, _, _, _,
    run_eq _ _ rootPlace_twins, run_eq _ _ hroot, hl, shown_collect, hl', shown_collect, ?_⟩
  rw [collect, collect, survey_twins, survey_twinsOther]
  decide +kernel

end RepoAtlas.Walk
