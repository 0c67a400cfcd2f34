import RepoAtlas.Proofs.Python.Statements
import RepoAtlas.Proofs.Syntax.Recognizer
import RepoAtlas.Python.Extract

/-!
# What a module imports

The imports of a module, told from the import statements directly in it: each item
is entered under its alias if it has one, and under its name in the module it comes
from otherwise; all items of a module are entered at once under an asterisk
(`Import.entries`). A statement is an import by the grammar in one way (`IsImport`),
and every item of it is entered once and in order (`imports_eq_iff`).
-/

namespace RepoAtlas.Python

open Syntax Syntax.Language

/-! ### Imports -/

/-- An imported item, by its dotted name and its alias if it has one. -/
structure Item where
  name : String
  alias? : Option String

/-- An import statement. -/
inductive Import where
  /-- Modules. -/
  | plain (items : List Item)
  /-- Items of a module, whose leading dots are dropped. -/
  | named (module : String) (items : List Item)
  /-- All items of a module. -/
  | all (module : String)
  /-- Features of the language to come. -/
  | future (items : List Item)

/-- What an item is entered under: its alias, or its name behind the front. -/
def Item.entry (front : String) (i : Item) : String := i.alias?.getD (front ++ i.name)

/-- What an import is entered under, item by item. -/
def Import.entries : Import → List String
  | .plain items => items.map (·.entry "")
  | .named module items => items.map (·.entry (module ++ "."))
  | .all module => [module ++ ".*"]
  | .future items => items.map (·.entry "__future__.")

/-- Whether a part of an import is an item of it. -/
def isItem (part : Node) : Bool :=
  (part.rule? == some .dottedName || part.rule? == some .aliasedImport) &&
    part.role? != some .moduleName

/-- Whether a node tells an item. -/
inductive IsItem : Node → Item → Prop
  | plain {role : Option Role} {parts : List Node} :
    IsItem (.branch .dottedName role parts) ⟨Node.text (.branch .dottedName role parts), none⟩
  | aliased {role : Option Role} {parts : List Node} {dotted : Node} {line : Nat}
    {gap name : String} :
    dotted ∈ parts → dotted.role? = some .name →
    .leaf .identifier (some .alias) line gap name ∈ parts →
      IsItem (.branch .aliasedImport role parts) ⟨dotted.text, some name⟩

/-- Whether a node says which module items come from, but for leading dots. -/
inductive IsOrigin : Node → String → Prop
  | absolute {role : Option Role} {parts : List Node} :
    IsOrigin (.branch .dottedName role parts) (Node.text (.branch .dottedName role parts))
  | relative {role : Option Role} {parts : List Node} {dotted : Node} :
    dotted ∈ parts → dotted.rule? = some .dottedName →
      IsOrigin (.branch .relativeImport role parts) dotted.text
  | dots {role : Option Role} {parts : List Node} :
    (∀ part ∈ parts, part.rule? ≠ some .dottedName) →
      IsOrigin (.branch .relativeImport role parts) ""

/-- Whether a node is an import. -/
inductive IsImport : Node → Import → Prop
  | plain {role : Option Role} {parts : List Node} {items : List Item} :
    List.Forall₂ IsItem (parts.filter isItem) items →
      IsImport (.branch .importStatement role parts) (.plain items)
  | named {role : Option Role} {parts : List Node} {origin : Node} {module : String}
    {items : List Item} :
    origin ∈ parts → origin.role? = some .moduleName → IsOrigin origin module →
    (∀ part ∈ parts, part.rule? ≠ some .wildcardImport) →
    List.Forall₂ IsItem (parts.filter isItem) items →
      IsImport (.branch .importFromStatement role parts) (.named module items)
  | all {role : Option Role} {parts : List Node} {origin asterisk : Node} {module : String} :
    origin ∈ parts → origin.role? = some .moduleName → IsOrigin origin module →
    asterisk ∈ parts → asterisk.rule? = some .wildcardImport →
      IsImport (.branch .importFromStatement role parts) (.all module)
  | future {role : Option Role} {parts : List Node} {items : List Item} :
    List.Forall₂ IsItem (parts.filter isItem) items →
      IsImport (.branch .futureImportStatement role parts) (.future items)

/-- Whether a statement is an import. -/
def isImport (statement : Node) : Bool :=
  statement.rule? == some .importStatement || statement.rule? == some .importFromStatement ||
    statement.rule? == some .futureImportStatement

variable {role : Option Role} {node root origin statement : Node} {nodes parts : List Node}
  {item : Item} {items : List Item} {module : String} {i : Import} {e : Expr}

/-! ### Imports by the grammar -/

/-- Whether a part of an import is in the role of an item if it is one, and is no
    asterisk. -/
def IsListed (part : Node) : Prop :=
  (part.role? = some .name ↔ isItem part = true) ∧ part.rule? ≠ some .wildcardImport

theorem gives_token (t : Token) : language.Gives (.token t) IsListed := by
  intro nodes h
  rcases Describes.token_iff.1 h with ⟨_, line, gap, text, rfl⟩ | ⟨_, rfl⟩
  · exact List.forall_mem_singleton.2 ⟨iff_of_false nofun nofun, nofun⟩
  · exact List.forall_mem_nil _

/-- All parts of a list of imports are listed. -/
theorem gives_importList : language.Gives (.rule .importList) IsListed := by
  intro nodes h
  have hname : language.Gives
      (.role .name (.choice [.rule .dottedName, .rule .aliasedImport])) IsListed := by
    refine Gives.role (Gives.choice (List.forall_mem_cons.2 ⟨?_, List.forall_mem_singleton.2 ?_⟩))
    · exact gives_shown rfl rfl fun parts => ⟨iff_of_true rfl rfl, nofun⟩
    · exact gives_shown rfl rfl fun parts => ⟨iff_of_true rfl rfl, nofun⟩
  have h := describes_hidden h rfl rfl
  exact Gives.seqCons (Gives.sepBy1 hname (gives_token _))
    (Gives.seqCons (Gives.optional (gives_token _)) Gives.seqNil) h

/-- A list of items may stand in brackets. -/
theorem gives_bracketed :
    language.Gives (.seq [.token (.ofText "("), .rule .importList, .token (.ofText ")")])
      IsListed :=
  Gives.seqCons (gives_token _) (Gives.seqCons gives_importList
    (Gives.seqCons (gives_token _) Gives.seqNil))

theorem listed_of_plain (h : IsRegular (.branch .importStatement role parts)) :
    ∀ part ∈ parts, IsListed part :=
  Gives.seqCons (gives_token _) (Gives.seqCons gives_importList Gives.seqNil) (h.describes rfl rfl)

theorem listed_of_future (h : IsRegular (.branch .futureImportStatement role parts)) :
    ∀ part ∈ parts, IsListed part := by
  refine Gives.seqCons (gives_token _) (Gives.seqCons (gives_token _)
    (Gives.seqCons (gives_token _) (Gives.seqCons (Gives.choice ?_) Gives.seqNil)))
    (h.describes rfl rfl)
  exact List.forall_mem_cons.2 ⟨gives_importList, List.forall_mem_singleton.2 gives_bracketed⟩

/-- Items come from one module. -/
theorem origin_of_from (h : IsRegular (.branch .importFromStatement role parts)) :
    ∃ origin, Node.inRole .moduleName parts = [origin] ∧
      (origin.rule? = some .dottedName ∨ origin.rule? = some .relativeImport) := by
  obtain ⟨inner, hinner, horigin⟩ := inRole_eq (h.describes rfl rfl) 1 rfl (by decide) rfl
  obtain ⟨e, hmem, hinner⟩ := Describes.choice_iff.1 hinner
  simp only [List.mem_cons, List.not_mem_nil, or_false] at hmem
  rcases hmem with rfl | rfl
  · obtain ⟨parts, rfl, -⟩ := describes_shown hinner rfl rfl
    exact ⟨_, horigin, .inr rfl⟩
  · obtain ⟨parts, rfl, -⟩ := describes_shown hinner rfl rfl
    exact ⟨_, horigin, .inl rfl⟩

/-- From a module there come items, or all at once. -/
theorem listed_of_from (h : IsRegular (.branch .importFromStatement role parts)) :
    (∀ part ∈ parts, IsListed part) ∨
      Node.inRole .name parts = [] ∧ ∃ asterisk ∈ parts, asterisk.rule? = some .wildcardImport := by
  have hparts : language.Describes (.seq ([_, _, _] ++ [_])) parts := h.describes rfl rfl
  -- The module comes first and in a role of its own; what is imported comes last.
  obtain ⟨front, last, rfl, hfront, hlast⟩ := Describes.seq_concat_iff.1 hparts
  have hlistedFront : ∀ part ∈ front, IsListed part := by
    refine Gives.seqCons (gives_token _) (Gives.seqCons (Gives.role (Gives.choice ?_))
      (Gives.seqCons (gives_token _) Gives.seqNil)) hfront
    refine List.forall_mem_cons.2 ⟨?_, List.forall_mem_singleton.2 ?_⟩
    · exact gives_shown rfl rfl fun parts => ⟨iff_of_false nofun nofun, nofun⟩
    · exact gives_shown rfl rfl fun parts => ⟨iff_of_false nofun nofun, nofun⟩
  obtain ⟨e, hmem, hlast⟩ := Describes.choice_iff.1 hlast
  simp only [List.mem_cons, List.not_mem_nil, or_false] at hmem
  rcases hmem with rfl | rfl | rfl
  · obtain ⟨asterisk, rfl, -⟩ := describes_shown hlast rfl rfl
    refine .inr ⟨?_, _, List.mem_append_right _ (List.mem_singleton_self _), rfl⟩
    rw [Node.inRole_append, inRole_eq_nil hfront (by decide), inRole_eq_nil hlast (by decide),
      List.nil_append]
  · exact .inl (List.forall_mem_append.2 ⟨hlistedFront, gives_importList hlast⟩)
  · exact .inl (List.forall_mem_append.2 ⟨hlistedFront, gives_bracketed hlast⟩)

/-- A module that is told by its place has leading dots, and perhaps a name behind. -/
theorem parts_of_relative (h : IsRegular (.branch .relativeImport role parts)) :
    ∃ dots others, parts = .branch .importPrefix none dots :: others ∧
      (others = [] ∨ ∃ inner, others = [.branch .dottedName none inner]) := by
  obtain ⟨front, others, rfl, hfront, hothers⟩ := Describes.seq_cons_iff.1 (h.describes rfl rfl)
  obtain ⟨dotted, last, rfl, hdotted, hlast⟩ := Describes.seq_cons_iff.1 hothers
  obtain ⟨dots, rfl, -⟩ := describes_shown hfront rfl rfl
  rw [Describes.seq_nil_iff.1 hlast, List.append_nil]
  refine ⟨dots, dotted, rfl, ?_⟩
  obtain ⟨e, hmem, hdotted⟩ := Describes.choice_iff.1 hdotted
  simp only [List.mem_cons, List.not_mem_nil, or_false] at hmem
  rcases hmem with rfl | rfl
  · obtain ⟨inner, rfl, -⟩ := describes_shown hdotted rfl rfl
    exact .inr ⟨inner, rfl⟩
  · exact .inl (Describes.seq_nil_iff.1 hdotted)

/-- An item with an alias has one name and one alias. -/
theorem parts_of_aliased (h : IsRegular (.branch .aliasedImport role parts)) :
    (∃ dotted, Node.inRole .name parts = [dotted]) ∧
      ∃ line gap name,
        Node.inRole .alias parts = [.leaf .identifier (some .alias) line gap name] := by
  obtain ⟨inner, hinner, hname⟩ := inRole_eq (h.describes rfl rfl) 0 rfl (by decide) rfl
  obtain ⟨dotted, rfl, -⟩ := describes_shown hinner rfl rfl
  obtain ⟨inner, hinner, halias⟩ := inRole_eq (h.describes rfl rfl) 2 rfl (by decide) rfl
  obtain ⟨line, gap, name, rfl⟩ := describes_identifier hinner
  exact ⟨⟨_, hname⟩, line, gap, name, halias⟩

/-! ### Items as they are read -/

/-- What stands in front of the names of a module. -/
def front (module? : Option String) : String := module?.elim "" (· ++ ".")

/-- An item is entered by the name that it is imported under. -/
theorem importedName_eq (h : IsRegular node) (hitem : IsItem node item) (module? : Option String) :
    importedName module? node = item.entry (front module?) := by
  cases hitem with
  | plain => cases module? <;> simp [importedName, Item.entry, front]
  | aliased _ _ halias =>
    obtain ⟨-, line, gap, name, honly⟩ := parts_of_aliased h
    cases Node.eq_of_inRole_eq honly halias rfl
    rw [importedName, partText?, Node.child?_eq]
    dsimp only [Node.children]
    rw [honly]
    simp [Node.text, Node.leaves, Item.entry]

/-- Names with dots and names with an alias are items. -/
theorem exists_item (h : IsRegular node)
    (hrule : node.rule? = some .dottedName ∨ node.rule? = some .aliasedImport) :
    ∃ item, IsItem node item := by
  rcases hrule with hrule | hrule
  · obtain ⟨role, parts, rfl⟩ := eq_branch_of_rule? hrule
    exact ⟨_, .plain⟩
  · obtain ⟨role, parts, rfl⟩ := eq_branch_of_rule? hrule
    obtain ⟨⟨dotted, hdotted⟩, line, gap, name, halias⟩ := parts_of_aliased h
    obtain ⟨hmem, hrole⟩ := Node.mem_of_inRole_eq hdotted
    exact ⟨_, .aliased hmem hrole (Node.mem_of_inRole_eq halias).1⟩

/-- The items of an import are the parts in their role. -/
theorem inRole_name_eq (hlisted : ∀ part ∈ parts, IsListed part) :
    Node.inRole .name parts = parts.filter isItem := by
  refine List.filter_congr fun part hpart => ?_
  rw [Bool.eq_iff_iff, beq_iff_eq]
  exact (hlisted part hpart).1

theorem exists_items (h : ∀ part ∈ parts, IsRegular part) :
    ∃ items, List.Forall₂ IsItem (parts.filter isItem) items := by
  refine exists_forall₂ fun part hpart => ?_
  obtain ⟨hmem, hitem⟩ := List.mem_filter.1 hpart
  simp only [isItem, Bool.and_eq_true, Bool.or_eq_true, beq_iff_eq] at hitem
  exact exists_item (h part hmem) hitem.1

/-- The items of an import are read one by one. -/
theorem map_importedName (h : ∀ part ∈ parts, IsRegular part)
    (hlisted : ∀ part ∈ parts, IsListed part) (module? : Option String)
    (hitems : List.Forall₂ IsItem (parts.filter isItem) items) :
    (Node.inRole .name parts).map (importedName module?) = items.map (·.entry (front module?)) := by
  rw [inRole_name_eq hlisted, List.map_eq_flatMap, List.map_eq_flatMap]
  refine flatMap_eq_of_forall₂ (fun part hpart item hitem => ?_) hitems
  rw [importedName_eq (h part (List.mem_filter.1 hpart).1) hitem]

/-- The path of a module has its dots in front. -/
theorem modulePath_eq (h : IsRegular origin) (horigin : IsOrigin origin module) :
    modulePath origin = module := by
  cases horigin with
  | absolute => rfl
  | @relative _ parts dotted hmem hrule =>
    obtain ⟨dots, others, rfl, hothers⟩ := parts_of_relative h
    rcases hothers with rfl | ⟨inner, rfl⟩
    · rw [List.mem_singleton] at hmem
      subst hmem
      cases hrule
    · rw [List.mem_cons, List.mem_singleton] at hmem
      rcases hmem with rfl | rfl
      · cases hrule
      · rfl
  | dots hnone =>
    rw [modulePath, List.find?_eq_none.2]
    exact fun part hpart hrule => hnone part hpart (beq_iff_eq.1 hrule)

/-- What stands behind `from` is the path of a module. -/
theorem exists_origin (h : IsRegular origin)
    (hrule : origin.rule? = some .dottedName ∨ origin.rule? = some .relativeImport) :
    ∃ module, IsOrigin origin module := by
  rcases hrule with hrule | hrule
  · obtain ⟨role, parts, rfl⟩ := eq_branch_of_rule? hrule
    exact ⟨_, .absolute⟩
  · obtain ⟨role, parts, rfl⟩ := eq_branch_of_rule? hrule
    by_cases hdotted : ∃ part ∈ parts, part.rule? = some .dottedName
    · obtain ⟨dotted, hmem, hdotted⟩ := hdotted
      exact ⟨_, .relative hmem hdotted⟩
    · exact ⟨_, .dots fun part hmem hpart => hdotted ⟨part, hmem, hpart⟩⟩

/-! ### Statements as they are read -/

theorem isImport_iff :
    isImport statement = true ↔
      statement.rule? = some .importStatement ∨ statement.rule? = some .importFromStatement ∨
        statement.rule? = some .futureImportStatement := by
  simp only [isImport, Bool.or_eq_true, beq_iff_eq, or_assoc]

theorem any_wildcard_iff :
    (parts.any fun part => part.rule? == some .wildcardImport) = true ↔
      ∃ part ∈ parts, part.rule? = some .wildcardImport := by
  simp only [List.any_eq_true, beq_iff_eq]

/-- A statement of another kind imports nothing. -/
theorem importsOf_eq_nil (h : isImport statement = false) : importsOf statement = [] := by
  unfold importsOf
  split
  · cases h
  · cases h
  · cases h
  · rfl

/-- A statement that is an import is one in some way. -/
theorem exists_import (h : IsRegular statement) (himport : isImport statement = true) :
    ∃ i, IsImport statement i := by
  rcases isImport_iff.1 himport with hrule | hrule | hrule
  · obtain ⟨role, parts, rfl⟩ := eq_branch_of_rule? hrule
    obtain ⟨items, hitems⟩ := exists_items h.children
    exact ⟨_, .plain hitems⟩
  · obtain ⟨role, parts, rfl⟩ := eq_branch_of_rule? hrule
    obtain ⟨origin, horigin, hrule⟩ := origin_of_from h
    obtain ⟨horigin, hrole⟩ := Node.mem_of_inRole_eq horigin
    obtain ⟨module, hmodule⟩ := exists_origin (h.children _ horigin) hrule
    rcases listed_of_from h with hlisted | ⟨-, asterisk, hasterisk, hwildcard⟩
    · obtain ⟨items, hitems⟩ := exists_items h.children
      exact ⟨_, .named horigin hrole hmodule (fun part hmem => (hlisted part hmem).2) hitems⟩
    · exact ⟨_, .all horigin hrole hmodule hasterisk hwildcard⟩
  · obtain ⟨role, parts, rfl⟩ := eq_branch_of_rule? hrule
    obtain ⟨items, hitems⟩ := exists_items h.children
    exact ⟨_, .future hitems⟩

/-- The module that items come from is read as it is told. -/
theorem path_of_from {origin : Node} (h : IsRegular (.branch .importFromStatement role parts))
    (hmem : origin ∈ parts) (hrole : origin.role? = some .moduleName)
    (horigin : IsOrigin origin module) :
    ((Node.child? .moduleName (.branch .importFromStatement role parts)).map modulePath).getD "" =
      module := by
  obtain ⟨only, honly, -⟩ := origin_of_from h
  obtain rfl := Node.eq_of_inRole_eq honly hmem hrole
  rw [Node.child?_eq]
  dsimp only [Node.children]
  rw [honly]
  exact modulePath_eq (h.children _ hmem) horigin

/-- An import is read item by item. -/
theorem importsOf_eq (h : IsRegular statement) (himport : IsImport statement i) :
    importsOf statement = i.entries := by
  cases himport with
  | plain hitems => exact map_importedName h.children (listed_of_plain h) none hitems
  | named hmem hrole horigin hnone hitems =>
    rw [importsOf, path_of_from h hmem hrole horigin, if_neg, List.nil_append]
    · rcases listed_of_from h with hlisted | ⟨-, asterisk, hasterisk, hwildcard⟩
      · exact map_importedName h.children hlisted (some _) hitems
      · exact absurd hwildcard (hnone asterisk hasterisk)
    · rw [any_wildcard_iff]
      rintro ⟨part, hpart, hrule⟩
      exact hnone part hpart hrule
  | @all role parts origin asterisk module hmem hrole horigin hasterisk hwildcard =>
    rw [importsOf, path_of_from h hmem hrole horigin,
      if_pos (any_wildcard_iff.2 ⟨_, hasterisk, hwildcard⟩)]
    rcases listed_of_from h with hlisted | ⟨hnone, -⟩
    · exact absurd hwildcard (hlisted _ hasterisk).2
    · have hnames : Node.childrenIn Role.name (.branch Rule.importFromStatement role parts) = [] :=
        hnone
      rw [hnames]
      rfl
  | future hitems => exact map_importedName h.children (listed_of_future h) (some _) hitems

/-- Statements that are no imports add nothing. -/
theorem imports_eq (root : Node) :
    imports root = (root.children.filter isImport).flatMap importsOf := by
  rw [imports]
  induction root.children with
  | nil => rfl
  | cons statement statements ih =>
    rw [List.flatMap_cons, List.filter_cons, ih]
    split
    · rw [List.flatMap_cons]
    · rename_i himport
      rw [importsOf_eq_nil (Bool.eq_false_iff.2 himport), List.nil_append]

/-- The imports of a module are those of the import statements directly in it, each item
    entered once and in order. -/
theorem imports_eq_iff (h : IsModule root) {names : List String} :
    imports root = names ↔
      ∃ statements, List.Forall₂ IsImport (root.children.filter isImport) statements ∧
        statements.flatMap Import.entries = names := by
  have hregular : ∀ statement ∈ root.children.filter isImport, IsRegular statement :=
    fun statement hmem => regular_of_isModule h statement (List.mem_filter.1 hmem).1
  rw [imports_eq, exists_forall₂_flatMap_iff
    (fun statement hmem => exists_import (hregular statement hmem) (List.mem_filter.1 hmem).2)
    fun statement hmem _ => importsOf_eq (hregular statement hmem)]

/-- The tree of a module with imports of every kind: under names and aliases, from a
    module told by its place, with a name and without, of all items, and to come. -/
def importing : Node :=
  .branch .module none [
    .branch .importStatement none [
      .leaf (.word "import") none 0 "" "import",
      .branch .dottedName (some .name) [
        .leaf .identifier none 0 " " "a",
        .leaf (.sign ".") none 0 "" ".",
        .leaf .identifier none 0 "" "b"],
      .leaf (.sign ",") none 0 "" ",",
      .branch .aliasedImport (some .name) [
        .branch .dottedName (some .name) [
          .leaf .identifier none 0 " " "c"],
        .leaf (.word "as") none 0 " " "as",
        .leaf .identifier (some .alias) 0 " " "d"]],
    .branch .importFromStatement none [
      .leaf (.word "from") none 1 "\n" "from",
      .branch .relativeImport (some .moduleName) [
        .branch .importPrefix none [
          .leaf (.sign ".") none 1 " " ".",
          .leaf (.sign ".") none 1 "" "."],
        .branch .dottedName none [
          .leaf .identifier none 1 "" "m"]],
      .leaf (.word "import") none 1 " " "import",
      .branch .dottedName (some .name) [
        .leaf .identifier none 1 " " "x"]],
    .branch .importFromStatement none [
      .leaf (.word "from") none 2 "\n" "from",
      .branch .relativeImport (some .moduleName) [
        .branch .importPrefix none [
          .leaf (.sign ".") none 2 " " "."]],
      .leaf (.word "import") none 2 " " "import",
      .leaf (.sign "(") none 2 " " "(",
      .branch .aliasedImport (some .name) [
        .branch .dottedName (some .name) [
          .leaf .identifier none 2 "" "y"],
        .leaf (.word "as") none 2 " " "as",
        .leaf .identifier (some .alias) 2 " " "z"],
      .leaf (.sign ",") none 2 "" ",",
      .branch .dottedName (some .name) [
        .leaf .identifier none 2 " " "w"],
      .leaf (.sign ")") none 2 "" ")"],
    .branch .importFromStatement none [
      .leaf (.word "from") none 3 "\n" "from",
      .branch .dottedName (some .moduleName) [
        .leaf .identifier none 3 " " "n"],
      .leaf (.word "import") none 3 " " "import",
      .branch .wildcardImport none [
        .leaf (.sign "*") none 3 " " "*"]],
    .branch .futureImportStatement none [
      .leaf (.word "from") none 4 "\n" "from",
      .leaf (.word "__future__") none 4 " " "__future__",
      .leaf (.word "import") none 4 " " "import",
      .branch .dottedName (some .name) [
        .leaf .identifier none 4 " " "v"]]]

theorem imports_importing :
    IsModule importing ∧
      imports importing = ["a.b", "d", "m.x", "z", ".w", "n.*", "__future__.v"] := by
  have h : IsModule importing := describes_of_recognizes 50 (by decide +kernel)
  refine ⟨h, (imports_eq_iff h).2 ?_⟩
  exact ⟨_, .cons (.plain (.cons .plain (.cons
      (.aliased (.head _) rfl (.tail _ (.tail _ (.head _)))) .nil)))
    (.cons (.named (.tail _ (.head _)) rfl (.relative (.tail _ (.head _)) rfl)
      (by simp [Node.rule?]) (.cons .plain .nil))
    (.cons (.named (.tail _ (.head _)) rfl (.dots (by simp [Node.rule?]))
      (by simp [Node.rule?]) (.cons
        (.aliased (.head _) rfl (.tail _ (.tail _ (.head _)))) (.cons .plain .nil)))
    (.cons (.all (.tail _ (.head _)) rfl .absolute (.tail _ (.tail _ (.tail _ (.head _)))) rfl)
    (.cons (.future (.cons .plain .nil)) .nil)))),
    by simp [Import.entries, Item.entry, Node.text, Node.leaves]⟩

end RepoAtlas.Python
