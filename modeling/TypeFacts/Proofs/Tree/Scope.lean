import TypeFacts.Proofs.Text.Trim
import TypeFacts.Proofs.Tree.Place
import TypeFacts.Tree.Name

/-!
# The scope at a place

A program and the body of each braced namespace open a scope (`Node.Opens`). At a place the
innermost one around it counts (`Node.Innermost`): it starts with its own name and no imports, and
the statements in front of the place are read in order (`Scope.Reads`). The scope of a place is
found by going up and by comparing where statements begin. In a tree whose parts stand in order
(`Node.Ordered`) this gives the scope that the statements make (`Node.Innermost.scope_eq`).

What a declaration imports depends on its form. It lists clauses (`Node.imports_of_clauses`), or one
group of them with a name in front (`Node.imports_of_group`). A clause imports under its alias
(`Node.importOfClause?_aliased`), or else under the last part of the full name
(`Node.importOfClause?_plain`).
-/

namespace TypeFacts

/-! ### Imports -/

namespace Node

/-- The names that stand in an import clause. -/
def importNames (clause : Node) : List Node :=
  clause.namedChildren.filter fun c => importNameKinds.contains c.kind

/-- The full name of what a clause imports, in a group that may have a name in front. -/
def fullName (group : String) (name : Node) : String :=
  if group.isEmpty then withoutOuterBackslashes name.text
  else group ++ "\\" ++ withoutOuterBackslashes name.text

/-- The short name is all that stands behind the last backslash of the full one. -/
def IsLastPart (short full : String) : Prop :=
  (∀ c ∈ short.toList, c ≠ '\\') ∧ (full = short ∨ ∃ front, full = front ++ "\\" ++ short)

section Clauses

variable {group last : String} {clause name short : Node} {rest : List Node}

/-- A clause with an alias imports under the alias. -/
theorem importOfClause?_aliased (hnames : clause.importNames = name :: rest)
    (halias : clause.child? "alias" = some short) :
    importOfClause? group clause = some (short.text, fullName group name) := by
  change clause.namedChildren.filter _ = _ at hnames
  simp only [importOfClause?, importAlias?, hnames, halias, Option.orElse_some, fullName]

/-- A clause with one name and no alias imports under the last part of the full name. -/
theorem importOfClause?_plain (hnames : clause.importNames = [name])
    (hrole : ∀ part ∈ clause.children, part.role ≠ "alias")
    (hkind : ∀ part ∈ clause.namedChildren, part.kind ≠ "namespace_aliasing_clause")
    (hlast : IsLastPart last (fullName group name)) :
    importOfClause? group clause = some (last, fullName group name) := by
  change clause.namedChildren.filter _ = _ at hnames
  have halias : importAlias? clause [name] = none := by
    have hchild : clause.child? "alias" = none := by simpa [child?] using hrole
    have haliasing : clause.namedOf? ["namespace_aliasing_clause"] = none := by
      simpa [namedOf?] using hkind
    simp [importAlias?, hchild, haliasing]
  obtain ⟨hslash, hlast⟩ := hlast
  unfold fullName at hlast ⊢
  simp only [importOfClause?, hnames, halias]
  obtain hfull | ⟨front, hfull⟩ := hlast
  · have hcut : Text.cutAtLast '\\' last.toList = none := Text.cutAtLast_of_forall hslash
    simp only [hfull, hcut]
  · have hcut : Text.cutAtLast '\\' (front ++ "\\" ++ last).toList
        = some (front.toList, last.toList) := by
      simpa using Text.cutAtLast_append_cons hslash front.toList
    simp only [hfull, hcut, String.ofList_toList]

end Clauses

/-- A declaration that lists clauses imports what they give, one after the other. -/
theorem imports_of_clauses {declaration : Node}
    (h : ∀ part ∈ declaration.namedChildren, part.kind = "namespace_use_clause") :
    declaration.imports = declaration.namedChildren.filterMap (importOfClause? "") := by
  unfold imports
  revert h
  induction declaration.namedChildren with
  | nil => exact fun _ => rfl
  | cons part parts ih =>
    intro h
    obtain ⟨hpart, hparts⟩ := List.forall_mem_cons.mp h
    rw [importsOfParts, if_pos (by simp [hpart]), ih hparts, List.filterMap_cons]
    cases importOfClause? "" part <;> rfl

/-- A declaration of a group imports what its clauses give behind the name of the group. -/
theorem imports_of_group {declaration front body : Node}
    (hparts : declaration.namedChildren = [front, body]) (hfront : front.kind = "namespace_name")
    (hbody : body.kind = "namespace_use_group")
    (h : ∀ part ∈ body.namedChildren, part.kind = "namespace_use_clause") :
    declaration.imports
      = body.namedChildren.filterMap (importOfClause? (withoutOuterBackslashes front.text)) := by
  have hclauses : (body.namedChildren.filter fun c =>
      c.kind == "namespace_use_clause" || c.kind == "namespace_use_group_clause")
        = body.namedChildren := by
    refine List.filter_eq_self.mpr fun part hpart => ?_
    simp [h part hpart]
  simp [imports, hparts, importsOfParts, hfront, hbody, hclauses, importNameKinds, nameKinds]

end Node

/-! ### Reading statements -/

namespace Scope

/-- The scope that statements make one after the other, in a block with a name of its own. -/
inductive Reads (own : String) : List Node → Scope → Prop
  | start : Reads own [] { ns := own }
  /-- A namespace without a body replaces the name and empties the imports. -/
  | unbraced {statements : List Node} {scope : Scope} {n : Node}
      (before : Reads own statements scope)
      (kind : n.kind = "namespace_definition") (bodiless : ∀ b ∈ n.children, b.role ≠ "body") :
      Reads own (statements ++ [n]) { ns := n.namespaceName }
  /-- Imports are added to those that are there. -/
  | use {statements : List Node} {scope : Scope} {n : Node} (before : Reads own statements scope)
      (kind : n.kind = "namespace_use_declaration") :
      Reads own (statements ++ [n]) { scope with imports := scope.imports.insertAll n.imports }
  /-- All else changes nothing, a namespace with a body among it. -/
  | other {statements : List Node} {scope : Scope} {n : Node} (before : Reads own statements scope)
      (braced : n.kind = "namespace_definition" → ∃ b ∈ n.children, b.role = "body")
      (kind : n.kind ≠ "namespace_use_declaration") : Reads own (statements ++ [n]) scope

theorem reads_foldl (own : String) (statements : List Node) :
    Reads own statements (statements.foldl afterStatement { ns := own }) := by
  induction statements using List.reverseRecOn with
  | nil => exact .start
  | append_singleton statements n ih =>
    have hbody : (n.child? "body").isNone = true ↔ ∀ b ∈ n.children, b.role ≠ "body" := by
      simp [Node.child?]
    rw [List.foldl_append]
    change Reads own _ (afterStatement _ n)
    unfold afterStatement
    split_ifs with hopen huse
    · rw [Bool.and_eq_true, beq_iff_eq, hbody] at hopen
      exact ih.unbraced hopen.1 hopen.2
    · exact ih.use (by simpa using huse)
    · refine ih.other (fun hkind => ?_) (by simpa using huse)
      have := hbody.not.mp fun h => hopen (by simp [hkind, h])
      push Not at this
      exact this

/-- The statement is of a kind that can change the scope. -/
def IsRead (n : Node) : Prop :=
  n.kind = "namespace_definition" ∨ n.kind = "namespace_use_declaration"

instance : DecidablePred IsRead := fun n =>
  inferInstanceAs
    (Decidable (n.kind = "namespace_definition" ∨ n.kind = "namespace_use_declaration"))

theorem afterStatement_of_not_isRead {n : Node} (h : ¬ IsRead n) (scope : Scope) :
    scope.afterStatement n = scope := by
  obtain ⟨hdefinition, huse⟩ := not_or.mp h
  simp [afterStatement, hdefinition, huse]

/-- Which statements begin before a place decides like which ones stand before it, if they are in
order and those of a kind that matters begin before it. -/
theorem before_append {start : Nat} {early late : List Node}
    (hordered : early.Pairwise (·.start ≤ ·.start))
    (hread : ∀ n ∈ early, IsRead n → n.start < start) (hlate : ∀ n ∈ late, start ≤ n.start)
    (scope : Scope) : before start scope (early ++ late) = early.foldl afterStatement scope := by
  unfold before
  induction early generalizing scope with
  | nil =>
    cases late with
    | nil => rfl
    | cons n late =>
      have hn := hlate n List.mem_cons_self
      rw [List.nil_append, List.takeWhile_cons_of_neg (by simpa using hn)]
  | cons n early ih =>
    obtain ⟨hfirst, hrest⟩ := List.pairwise_cons.mp hordered
    by_cases hn : n.start < start
    · rw [List.cons_append, List.takeWhile_cons_of_pos (by simpa using hn)]
      exact ih hrest (fun m hm => hread m (List.mem_cons_of_mem n hm)) _
    · -- nothing from here on begins before the place
      have hinert : ∀ m ∈ n :: early, ¬ IsRead m := by
        refine List.forall_mem_cons.mpr ⟨fun h => hn (hread n List.mem_cons_self h),
          fun m hm h => hn ?_⟩
        exact Nat.lt_of_le_of_lt (hfirst m hm) (hread m (List.mem_cons_of_mem n hm) h)
      rw [List.cons_append, List.takeWhile_cons_of_neg (by simpa using hn)]
      refine (List.foldlRecOn (n :: early) afterStatement (motive := (· = scope)) rfl ?_).symm
      rintro s rfl m hm
      exact afterStatement_of_not_isRead (hinert m hm) s

end Scope

/-! ### Trees in order -/

namespace Node

/-- The node comes before the other; if it is a namespace or an import, it begins before it. -/
def Precedes (n m : Node) : Prop :=
  n.start ≤ m.start ∧ (Scope.IsRead n → n.start < m.start)

instance : DecidableRel Precedes := fun n m =>
  inferInstanceAs (Decidable (n.start ≤ m.start ∧ (Scope.IsRead n → n.start < m.start)))

/-- The parts of each node stand in the order of the source, and namespaces and imports are
not empty. -/
def Ordered (root : Node) : Prop :=
  ∀ n, root.Within n → n.children.Pairwise Precedes

instance (root : Node) : Decidable root.Ordered :=
  inferInstanceAs (Decidable (∀ n, root.Within n → n.children.Pairwise Precedes))

/-- What begins before a child of a node is what stands before it, as far as scopes go. -/
theorem before_child {n d : Node} {i : Nat} (hordered : n.children.Pairwise Precedes)
    (hd : n.children[i]? = some d) (scope : Scope) :
    Scope.before d.start scope n.namedChildren
      = ((n.children.take i).filter isNamed).foldl Scope.afterStatement scope := by
  obtain ⟨hi, rfl⟩ := List.getElem?_eq_some_iff.mp hd
  have hsplit : n.children = n.children.take i ++ n.children[i] :: n.children.drop (i + 1) := by
    rw [← List.drop_eq_getElem_cons hi, List.take_append_drop]
  rw [hsplit, List.pairwise_append, List.pairwise_cons] at hordered
  obtain ⟨hearly, ⟨hafter, -⟩, hcross⟩ := hordered
  have hlate : ∀ m ∈ n.children[i] :: n.children.drop (i + 1), n.children[i].start ≤ m.start :=
    List.forall_mem_cons.mpr ⟨Nat.le_refl _, fun m hm => (hafter m hm).1⟩
  have hnamed : n.namedChildren = (n.children.take i).filter isNamed
      ++ (n.children[i] :: n.children.drop (i + 1)).filter isNamed := by
    rw [← List.filter_append, ← hsplit, namedChildren]
  rw [hnamed]
  refine Scope.before_append ?_ (fun m hm => ?_)
    (fun m hm => hlate m (List.mem_filter.mp hm).1) scope
  · exact (hearly.imp fun h => h.1).filter _
  · exact (hcross m (List.mem_filter.mp hm).1 _ List.mem_cons_self).2

/-! ### Scopes around a place -/

/-- The node at the end of the path opens a scope with a name of its own. -/
inductive Opens (root : Node) : List Nat → String → Prop
  | program {path : List Nat} {n : Node} (node : root.at? path = some n)
      (kind : n.kind = "program") :
      Opens root path ""
  /-- The body of a braced namespace. -/
  | braced {path : List Nat} {i : Nat} {n b : Node} (node : root.at? path = some n)
      (kind : n.kind = "namespace_definition") (block : root.at? (path ++ [i]) = some b)
      (blockKind : b.kind = "compound_statement") : Opens root (path ++ [i]) n.namespaceName

theorem opens_iff {root : Node} {path : List Nat} {own : String} : root.Opens path own ↔
    ∃ b, root.at? path = some b ∧ (b.kind = "program" ∧ own = "" ∨
      b.kind = "compound_statement" ∧ ∃ p i n, path = p ++ [i] ∧ root.at? p = some n ∧
        n.kind = "namespace_definition" ∧ own = n.namespaceName) := by
  constructor
  · rintro (⟨hn, hkind⟩ | ⟨hn, hkind, hb, hblock⟩)
    · exact ⟨_, hn, .inl ⟨hkind, rfl⟩⟩
    · exact ⟨_, hb, .inr ⟨hblock, _, _, _, rfl, hn, hkind, rfl⟩⟩
  · rintro ⟨b, hb, ⟨hkind, rfl⟩ | ⟨hblock, p, i, n, rfl, hn, hkind, rfl⟩⟩
    · exact .program hb hkind
    · exact .braced hn hkind hb hblock

/-- Of all nodes on the path that open scopes, the one at the end of `block` is the last one. -/
structure Innermost (root : Node) (path block : List Nat) (own : String) : Prop where
  opens : root.Opens block own
  isPrefix : block <+: path
  last : ∀ q other, q <+: path → root.Opens q other → q <+: block

variable {root : Node} {path block : List Nat} {own : String}

/-- The body of a braced namespace is the innermost scope of its statements, blocks apart. -/
theorem innermost_of_braced {n b s : Node} {j i : Nat} (hn : root.at? path = some n)
    (hkind : n.kind = "namespace_definition") (hb : root.at? (path ++ [j]) = some b)
    (hblock : b.kind = "compound_statement") (hs : root.at? (path ++ [j] ++ [i]) = some s)
    (hstatement : s.kind ≠ "program" ∧ s.kind ≠ "compound_statement") :
    root.Innermost (path ++ [j] ++ [i]) (path ++ [j]) n.namespaceName := by
  refine ⟨.braced hn hkind hb hblock, List.prefix_append _ _, fun q other hq hopens => ?_⟩
  rcases List.prefix_concat_iff.mp hq with rfl | hq
  · obtain ⟨s', hs', hcases⟩ := opens_iff.mp hopens
    obtain rfl : s = s' := Option.some.inj (hs.symm.trans hs')
    exact (hcases.elim (fun h => hstatement.1 h.1) fun h => hstatement.2 h.1).elim
  · exact hq

theorem Innermost.not_opens (h : root.Innermost path block own) {i : Nat} {rest : List Nat}
    (hq : block ++ i :: rest <+: path) (other : String) :
    ¬ root.Opens (block ++ i :: rest) other := by
  intro hopens
  have hlength := (h.last _ other hq hopens).length_le
  rw [List.length_append, List.length_cons] at hlength
  omega

/-- On every path from a program some scope is the innermost one. -/
theorem exists_innermost (hroot : root.kind = "program") (path : List Nat) :
    ∃ block own, root.Innermost path block own := by
  induction path using List.reverseRecOn with
  | nil =>
    refine ⟨[], "", .program rfl hroot, List.prefix_rfl, fun q _ hq _ => hq⟩
  | append_singleton path i ih =>
    by_cases hopens : ∃ own, root.Opens (path ++ [i]) own
    · obtain ⟨own, hopens⟩ := hopens
      exact ⟨path ++ [i], own, hopens, List.prefix_rfl, fun q _ hq _ => hq⟩
    · obtain ⟨block, own, h⟩ := ih
      have hbegins := h.isPrefix.trans (List.prefix_append path [i])
      refine ⟨block, own, h.opens, hbegins, fun q other hq hq' => ?_⟩
      rcases List.prefix_concat_iff.mp hq with rfl | hq
      · exact absurd ⟨other, hq'⟩ hopens
      · exact h.last q other hq hq'

end Node

/-! ### Going up -/

namespace Cursor

variable {root : Node} {c d : Cursor} {path : List Nat} {i : Nat} {own : String}

/-- Right above a place stands the node that its path passes last. -/
theorem above_cases (h : (ofRoot root).below? path = some c) : (path = [] ∧ c.above = []) ∨
    ∃ p i n before above, path = p ++ [i] ∧ root.at? p = some n ∧
      c.above = ⟨n, before⟩ :: above := by
  rcases List.eq_nil_or_concat path with rfl | ⟨p, i, rfl⟩
  · obtain rfl := Option.some.inj h
    exact .inl ⟨rfl, rfl⟩
  · rw [List.concat_eq_append, below?_concat] at h
    obtain ⟨e, he, hchild⟩ := Option.bind_eq_some_iff.mp h
    obtain ⟨-, habove⟩ := child?_eq_some_iff.mp hchild
    exact .inr ⟨p, i, e.node, _, e.above, List.concat_eq_append, at?_of_below? he, habove⟩

/-- In a block that opens a scope, the statements of the block are read. -/
theorem scope_of_opens (h : (ofRoot root).below? path = some c) (hd : c.child? i = some d)
    (hopens : root.Opens path own) :
    d.scope = Scope.before d.node.start { ns := own } c.node.namedChildren := by
  obtain ⟨-, hframe⟩ := child?_eq_some_iff.mp hd
  obtain ⟨b, hb, hcases⟩ := Node.opens_iff.mp hopens
  obtain rfl : c.node = b := Option.some.inj ((at?_of_below? h).symm.trans hb)
  rw [scope, hframe]
  rcases hcases with ⟨hkind, rfl⟩ | ⟨hblock, p, k, n, rfl, hn, hkind, rfl⟩
  · rcases c.above with _ | ⟨⟨outer, before⟩, above⟩ <;> simp [scopeIn, hkind]
  · rcases above_cases h with ⟨hnil, -⟩ | ⟨p', k', n', before, above, heq, hn', habove⟩
    · simp at hnil
    · obtain ⟨rfl, -⟩ := List.append_inj' heq rfl
      obtain rfl : n = n' := Option.some.inj (hn.symm.trans hn')
      simp [habove, scopeIn, hblock, hkind]

/-- All else has the scope of what is around it. -/
theorem scope_of_not_opens (h : (ofRoot root).below? path = some c) (hd : c.child? i = some d)
    (hopens : ∀ own, ¬ root.Opens path own) : d.scope = c.scope := by
  obtain ⟨-, hframe⟩ := child?_eq_some_iff.mp hd
  have hnode : root.at? path = some c.node := at?_of_below? h
  have hprogram : c.node.kind ≠ "program" := fun hkind => hopens _ (.program hnode hkind)
  rw [scope, scope, hframe]
  rcases above_cases h with ⟨-, habove⟩ | ⟨p, k, n, before, above, rfl, hn, habove⟩
  · simp [habove, scopeIn, hprogram]
  · have hbraced : ¬ (c.node.kind = "compound_statement" ∧ n.kind = "namespace_definition") :=
      fun hkinds => hopens _ (.braced hn hkinds.2 hnode hkinds.1)
    simp [habove, scopeIn, hprogram, hbraced]

end Cursor

/-- The scope at a place is what the statements in front of it in the innermost scope make. -/
theorem Node.Innermost.scope_eq {root n : Node} {path block rest : List Nat} {own : String}
    {i : Nat} {c : Cursor} (h : root.Innermost path block own) (hroot : root.Ordered)
    (hpath : path = block ++ i :: rest) (hn : root.at? block = some n)
    (hc : (Cursor.ofRoot root).below? path = some c) :
    c.scope = ((n.children.take i).filter isNamed).foldl Scope.afterStatement { ns := own } := by
  subst hpath
  -- the induction is on the way up to the statement that contains the place
  induction rest using List.reverseRecOn generalizing c with
  | nil =>
    rw [Cursor.below?_concat] at hc
    obtain ⟨b, hb, hchild⟩ := Option.bind_eq_some_iff.mp hc
    obtain rfl : b.node = n := Option.some.inj ((Cursor.at?_of_below? hb).symm.trans hn)
    rw [Cursor.scope_of_opens hb hchild h.opens]
    exact before_child (hroot b.node (within_of_at? hn)) (Cursor.child?_eq_some_iff.mp hchild).1 _
  | append_singleton rest k ih =>
    have hbegins : block ++ i :: rest <+: block ++ i :: (rest ++ [k]) := by
      simp [List.prefix_append]
    have hshorter : root.Innermost (block ++ i :: rest) block own :=
      { h with
        isPrefix := List.prefix_append _ _
        last := fun q other hq => h.last q other (hq.trans hbegins) }
    rw [← List.cons_append, ← List.append_assoc, Cursor.below?_concat] at hc
    obtain ⟨b, hb, hchild⟩ := Option.bind_eq_some_iff.mp hc
    rw [Cursor.scope_of_not_opens hb hchild (h.not_opens hbegins)]
    exact ih hshorter hb

end TypeFacts
