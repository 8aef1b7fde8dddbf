import TypeFacts.Proofs.Outline.Declared
import TypeFacts.Proofs.Tree.Sketch

/-!
# What a declaration depends on

The names that a declaration gives and the types that it declares are taken in the scope at its
place. `Outline.scope_of_preceding_statements` says what they depend on: the scope is what the
statements before the declaration in its innermost scope make. So nothing changes if something else
is put in the place of a later statement, of a statement outside the braced namespace that the
declaration stands in, or of the body of another namespace (`Node.Aside`).
-/

namespace TypeFacts

namespace Node

/-- A tree that the grammar gives for a program. -/
structure IsProgram (root : Node) : Prop where
  kind : root.kind = "program"
  ordered : root.Ordered
  /-- A block right in a namespace is its body. -/
  bodies : ∀ n, root.Within n → n.kind = "namespace_definition" →
    ∀ b ∈ n.children, b.kind = "compound_statement" → b.role = "body"
  /-- In names, types and modifiers there are no namespaces. -/
  words : ∀ n, root.Within n → ∀ c ∈ n.children, isWord n.kind c = true →
    ∀ d, c.Within d → d.kind ≠ "namespace_definition"

instance (root : Node) : Decidable root.IsProgram :=
  decidable_of_iff (root.kind = "program" ∧ root.Ordered ∧
      (∀ n, root.Within n → n.kind = "namespace_definition" →
        ∀ b ∈ n.children, b.kind = "compound_statement" → b.role = "body") ∧
      ∀ n, root.Within n → ∀ c ∈ n.children, isWord n.kind c = true →
        ∀ d, c.Within d → d.kind ≠ "namespace_definition")
    ⟨fun ⟨hkind, hordered, hbodies, hwords⟩ => ⟨hkind, hordered, hbodies, hwords⟩,
      fun h => ⟨h.kind, h.ordered, h.bodies, h.words⟩⟩

/-- The paths of nodes that do not matter for what stands on `path` in the statement `i` of a block:
later statements of the block, all that is outside of it, and bodies of other namespaces. -/
inductive Aside (root root' : Node) (path block : List Nat) (i : Nat) : List Nat → Prop
  | after {j : Nat} (later : i < j) : Aside root root' path block i (block ++ [j])
  /-- The parts of the namespace itself, beside its body, are not outside: its name is one
  of them. -/
  | outside {around inner : List Nat} {k j : Nat} (within : block = around ++ k :: inner)
      (inner_ne : inner ≠ []) (other : j ≠ k) : Aside root root' path block i (around ++ [j])
  | body {p : List Nat} {j : Nat} {n b b' : Node} (node : root.at? p = some n)
      (kind : n.kind = "namespace_definition") (old : root.at? (p ++ [j]) = some b)
      (new : root'.at? (p ++ [j]) = some b') (isBody : b.IsBody) (isBody' : b'.IsBody)
      (other : ¬ p ++ [j] <+: path) : Aside root root' path block i (p ++ [j])

variable {root root' n n' b b' : Node} {path block rest edit p q : List Nat} {i j : Nat}
  {own : String}

/-! ### Bodies of namespaces -/

/-- With another body in some namespace, the tree is the same up to it. -/
theorem IsProgram.edited (hroot : root.IsProgram) (hwithin : root.Within n)
    (h : Replaced (p ++ [j]) n n') {d : Node} (hd : n.at? p = some d)
    (hkind : d.kind = "namespace_definition") (hb : n.at? (p ++ [j]) = some b)
    (hb' : n'.at? (p ++ [j]) = some b') (hbody : b.IsBody) (hbody' : b'.IsBody) : Edited n n' := by
  induction p generalizing n n' with
  | nil =>
    obtain rfl : n = d := Option.some.inj hd
    rw [at?_concat] at hb hb'
    exact .body h.sameBut hkind hb hb' hbody hbody'
  | cons i p ih =>
    cases h with
    | @inside _ _ _ _ c c' same hc hc' hreplaced =>
      rw [at?_cons, hc] at hd
      rw [List.cons_append, at?_cons, hc] at hb
      rw [List.cons_append, at?_cons, hc'] at hb'
      have hmem := List.mem_of_getElem? hc
      refine .inside same hc hc' ?_ (ih (hwithin.child hmem) hreplaced hd hb hb')
      by_contra hword
      exact hroot.words n hwithin c hmem (by simpa using hword) d (within_of_at? hd) hkind

/-- So is all that does not stand in that body. -/
theorem IsProgram.exists_edited (hroot : root.IsProgram) (h : Replaced (p ++ [j]) root root')
    {d : Node} (hd : root.at? p = some d) (hkind : d.kind = "namespace_definition")
    (hb : root.at? (p ++ [j]) = some b) (hb' : root'.at? (p ++ [j]) = some b') (hbody : b.IsBody)
    (hbody' : b'.IsBody) (hq : ¬ p ++ [j] <+: q) (hn : root.at? q = some n) :
    ∃ n', root'.at? q = some n' ∧ Edited n n' := by
  rcases ends_or_leaves hq with ⟨k, more, hmore⟩ | ⟨around, k, more, l, more', hedit, rfl, hl⟩
  · -- the namespace stands in the node
    obtain ⟨p', l, hp'⟩ := (List.eq_nil_or_concat (k :: more)).resolve_left (by simp)
    rw [List.concat_eq_append] at hp'
    rw [hp', ← List.append_assoc] at hmore
    obtain ⟨rfl, hj⟩ := List.append_inj' hmore rfl
    rw [List.append_assoc] at h hb hb'
    obtain ⟨m, n', hm, hn', h⟩ := h.exists_at?
    obtain rfl : m = n := Option.some.inj (hm.symm.trans hn)
    rw [at?_append, hn] at hd hb
    rw [at?_append, hn'] at hb'
    exact ⟨n', hn', hroot.edited (within_of_at? hn) h hd hkind hb hb' hbody hbody'⟩
  · rw [hedit] at h
    obtain ⟨n', hn', hbare⟩ := h.exists_bare hl hn
    exact ⟨n', hn', .same hbare⟩

/-! ### Scopes -/

/-- What is put in the place of a node aside does not stand on the path. -/
theorem Aside.off_path (h : Aside root root' path block i edit)
    (hpath : path = block ++ i :: rest) :
    ¬ edit <+: path := by
  cases h with
  | @after j later =>
    rw [hpath, List.prefix_append_right_inj, List.cons_prefix_cons]
    omega
  | @outside around inner k j within _ other =>
    rw [hpath, within, List.append_assoc, List.prefix_append_right_inj, List.cons_append,
      List.cons_prefix_cons]
    exact fun h => other h.1
  | body _ _ _ _ _ _ other => exact other

/-- On a path that does not pass the replaced node, all nodes are named and of a kind as before. -/
theorem Replaced.exists_old (h : Replaced edit root root') (hedit : ¬ edit <+: path)
    (hn : root.at? path = some n) (hq : q <+: path) {m' : Node} (hm' : root'.at? q = some m') :
    ∃ m, root.at? q = some m ∧ m'.kind = m.kind ∧ m'.isNamed = m.isNamed := by
  obtain ⟨m, hm⟩ := exists_at?_of_begins hq hn
  obtain ⟨m'', hm'', hkind, hnamed, -⟩ := h.exists_same (fun hbegins => hedit (hbegins.trans hq)) hm
  obtain rfl : m'' = m' := Option.some.inj (hm''.symm.trans hm')
  exact ⟨m, hm, hkind, hnamed⟩

theorem Replaced.namedAlong (h : Replaced edit root root') (hedit : ¬ edit <+: path)
    (hn : root.at? path = some n) (hnamed : root.NamedAlong path) : root'.NamedAlong path := by
  intro q hq hne m' hm'
  obtain ⟨m, hm, -, hsame⟩ := h.exists_old hedit hn hq hm'
  rw [hsame]
  exact hnamed q hq hne m hm

theorem Replaced.exists_opens (h : Replaced edit root root') (hedit : ¬ edit <+: path)
    (hn : root.at? path = some n) (hq : q <+: path) (hopens : root'.Opens q own) :
    ∃ other, root.Opens q other := by
  cases hopens with
  | program hm' hkind' =>
    obtain ⟨m, hm, hkind, -⟩ := h.exists_old hedit hn hq hm'
    exact ⟨_, .program hm (hkind.symm.trans hkind')⟩
  | @braced p k d' b' hd' hkind' hb' hblock' =>
    obtain ⟨d, hd, hkind, -⟩ := h.exists_old hedit hn ((List.prefix_append p [k]).trans hq) hd'
    obtain ⟨b, hb, hblock, -⟩ := h.exists_old hedit hn hq hb'
    exact ⟨_, .braced hd (hkind.symm.trans hkind') hb (hblock.symm.trans hblock')⟩

section Aside

variable (hroot : root.IsProgram) (h : Replaced edit root root')
  (haside : Aside root root' path block i edit)
include hroot h haside

/-- The declaration itself is the same up to the body of a namespace in it. -/
theorem Aside.exists_edited (hpath : path = block ++ i :: rest) (hn : root.at? path = some n) :
    ∃ n', root'.at? path = some n' ∧ Edited n n' := by
  cases haside with
  | @after j later =>
    rw [hpath] at hn ⊢
    obtain ⟨n', hn', hbare⟩ := h.exists_bare (Nat.ne_of_lt later) hn
    exact ⟨n', hn', .same hbare⟩
  | @outside around inner k j within _ other =>
    rw [hpath, within, List.append_assoc, List.cons_append] at hn ⊢
    obtain ⟨n', hn', hbare⟩ := h.exists_bare other.symm hn
    exact ⟨n', hn', .same hbare⟩
  | body hd hkind hb hb' hbody hbody' other =>
    exact hroot.exists_edited h hd hkind hb hb' hbody hbody' other hn

/-- So are the statements before it. -/
theorem Aside.exists_statements (hpath : path = block ++ i :: rest) (hn : root.at? block = some n)
    (hkind : n.kind ≠ "namespace_definition") :
    ∃ n', root'.at? block = some n' ∧
      List.Forall₂ Edited (n.children.take i) (n'.children.take i) := by
  have hall : ∀ {n'}, Edited n n' → List.Forall₂ Edited (n.children.take i) (n'.children.take i) :=
    fun hedited => List.forall₂_take i (hedited.children.imp fun c c' hc => hc.edited_of_ne hkind)
  cases haside with
  | @after j later =>
    obtain ⟨m, n', hm, hn', h⟩ := h.exists_at?
    obtain rfl : m = n := Option.some.inj (hm.symm.trans hn)
    refine ⟨n', hn', forall₂_iff_getElem?.mpr fun k => ?_⟩
    rw [List.getElem?_take, List.getElem?_take]
    split_ifs with hk
    · exact rel_imp (rel_bare (h.sameBut.others k (by omega))) fun c c' hbare => .same hbare
    · exact .none
  | @outside around inner k j within _ other =>
    rw [within] at hn ⊢
    obtain ⟨n', hn', hbare⟩ := h.exists_bare other.symm hn
    exact ⟨n', hn', hall (.same hbare)⟩
  | body hd hkind' hb hb' hbody hbody' other =>
    have hblock : ¬ _ <+: block := fun hbegins =>
      other (hbegins.trans (hpath ▸ List.prefix_append _ _))
    obtain ⟨n', hn', hedited⟩ := hroot.exists_edited h hd hkind' hb hb' hbody hbody' hblock hn
    exact ⟨n', hn', hall hedited⟩

/-- So is the namespace whose body the block is. -/
theorem Aside.exists_namespace (hpath : path = block ++ i :: rest) (hblock : block = p ++ [j])
    (hn : root.at? p = some n) (hkind : n.kind = "namespace_definition")
    (hb : root.at? block = some b) (hbody : b.IsBody) :
    ∃ n', root'.at? p = some n' ∧ Edited n n' := by
  have hoff : ∀ q, q <+: block → ¬ edit <+: q := fun q hq hedit =>
    haside.off_path hpath (hedit.trans (hq.trans (hpath ▸ List.prefix_append _ _)))
  cases haside with
  | @after k later =>
    obtain ⟨b', hb', hbkind, hbnamed, hbrole⟩ := h.exists_same (hoff block List.prefix_rfl) hb
    have hbody' : b'.IsBody :=
      ⟨hbkind.trans hbody.kind, hbrole.trans hbody.role, hbnamed.trans hbody.isNamed⟩
    subst hblock
    obtain ⟨m, n', hm, hn', h⟩ := h.shorten.exists_at?
    obtain rfl : m = n := Option.some.inj (hm.symm.trans hn)
    rw [at?_append, hn] at hb
    rw [at?_append, hn'] at hb'
    exact ⟨n', hn', hroot.edited (p := []) (within_of_at? hn) h rfl hkind hb hb' hbody hbody'⟩
  | @outside around inner k l within inner_ne other =>
    obtain ⟨inner, m, rfl⟩ := (List.eq_nil_or_concat inner).resolve_left inner_ne
    rw [hblock, List.concat_eq_append, ← List.cons_append, ← List.append_assoc] at within
    obtain ⟨rfl, -⟩ := List.append_inj' within rfl
    obtain ⟨n', hn', hbare⟩ := h.exists_bare other.symm hn
    exact ⟨n', hn', .same hbare⟩
  | body hd hkind' hb hb' hbody hbody' other =>
    exact hroot.exists_edited h hd hkind' hb hb' hbody hbody'
      (hoff p (hblock ▸ List.prefix_append p [j])) hn

/-- The innermost scope is the same block with the same name. -/
theorem Aside.innermost (hpath : path = block ++ i :: rest) (hin : root.Innermost path block own)
    (hnamed : root.NamedAlong path) (hn : root.at? path = some n) :
    root'.Innermost path block own := by
  have hoff := haside.off_path hpath
  refine ⟨?_, hin.isPrefix, fun q other hq hopens => ?_⟩
  · have hsame : ∀ m, root.at? block = some m → ∃ m', root'.at? block = some m' ∧
      m'.kind = m.kind := by
      intro m hm
      obtain ⟨m', hm', hkind, -⟩ := h.exists_same (fun h => hoff (h.trans hin.isPrefix)) hm
      exact ⟨m', hm', hkind⟩
    obtain ⟨b, hb, ⟨hkind, rfl⟩ | ⟨hkind, p, k, d, hblock, hd, hdkind, rfl⟩⟩ :=
      opens_iff.mp hin.opens
    · obtain ⟨b', hb', hkind'⟩ := hsame b hb
      exact .program hb' (hkind'.trans hkind)
    · have hbody : b.IsBody := by
        refine ⟨hkind, hroot.bodies d (within_of_at? hd) hdkind b ?_ hkind, ?_⟩
        · rw [hblock, at?_concat, hd] at hb
          exact List.mem_of_getElem? hb
        · exact hnamed block hin.isPrefix (by simp [hblock]) b hb
      obtain ⟨d', hd', hedited⟩ := haside.exists_namespace hroot h hpath hblock hd hdkind hb hbody
      obtain ⟨b', hb', hkind'⟩ := hsame b hb
      rw [← hedited.namespaceName]
      rw [hblock] at hb' ⊢
      exact .braced hd' (hedited.kind.trans hdkind) hb' (hkind'.trans hkind)
  · obtain ⟨other', hother⟩ := h.exists_opens hoff hn hq hopens
    exact hin.last q other' hq hother

/-- The scope at the place is the same. -/
theorem Aside.scope_eq (hroot' : root'.Ordered) (hpath : path = block ++ i :: rest)
    (hin : root.Innermost path block own) (hnamed : root.NamedAlong path) {c c' : Cursor}
    (hc : (Cursor.ofRoot root).below? path = some c)
    (hc' : (Cursor.ofRoot root').below? path = some c') : c'.scope = c.scope := by
  have hin' := haside.innermost hroot h hpath hin hnamed (Cursor.at?_of_below? hc)
  obtain ⟨b, hb, hcases⟩ := opens_iff.mp hin.opens
  have hkind : b.kind ≠ "namespace_definition" := by
    rcases hcases with ⟨hkind, -⟩ | ⟨hkind, -⟩ <;> simp [hkind]
  obtain ⟨b', hb', hstatements⟩ := haside.exists_statements hroot h hpath hb hkind
  rw [hin'.scope_eq hroot' hpath hb' hc', hin.scope_eq hroot.ordered hpath hb hc]
  refine foldl_afterStatement (List.rel_filter (fun c c' hc => ?_) hstatements) _
  exact Bool.eq_iff_iff.mp hc.isNamed.symm

end Aside

end Node

/-! ### Declarations -/

namespace Outline

open Infer (FunctionTypes)

/-- The kinds of nodes that declare functions and classes. -/
def declarationKinds : List String :=
  "function_definition" :: Node.classKinds

theorem declaring_of_declaration {k : String} (h : declarationKinds.contains k = true) :
    Node.declaringKinds.contains k = true := by
  have hsub : ∀ k ∈ declarationKinds, Node.declaringKinds.contains k = true := by decide
  exact hsub k (List.contains_iff_mem.mp h)

/-- The scope at a declaration is what the statements before it make in the innermost scope around
it. So with another node aside, the declaration is found in the same place, in the same scope, and
gives the same names and types. -/
theorem scope_of_preceding_statements (functions : FunctionTypes) {root : Node}
    (hroot : root.IsProgram) {c : Cursor} (hc : c ∈ (Cursor.ofRoot root).find declarationKinds) :
    (∃ block i rest own, c.path = block ++ i :: rest ∧ root.Innermost c.path block own) ∧
    ∀ block i rest own, c.path = block ++ i :: rest → root.Innermost c.path block own →
      (∃ n, root.at? block = some n ∧
        Scope.Reads own ((n.children.take i).filter Node.isNamed) c.scope) ∧
      ∀ root' edit, root'.Ordered → Node.Replaced edit root root' →
        Node.Aside root root' c.path block i edit →
        ∃ c' ∈ (Cursor.ofRoot root').find declarationKinds, c'.path = c.path ∧ c'.scope = c.scope ∧
          (Node.classKinds.contains c.node.kind = true →
            Parallel (Excuse functions c.node c'.node)
              (fun cls cls' => cls'.map ClassOutline.declared = cls.map ClassOutline.declared)
              (readClass functions c) (readClass functions c')) ∧
          (c.node.kind = "function_definition" →
            Parallel (Excuse functions c.node c'.node)
              (fun f f' => f'.map FunctionOutline.declared = f.map FunctionOutline.declared)
              (readFunction functions c.scope none c)
              (readFunction functions c'.scope none c')) := by
  obtain ⟨hkind, hplace, hnamed⟩ := Cursor.mem_find_iff.mp hc
  have hnode : root.at? c.path = some c.node := Cursor.at?_of_below? hplace
  refine ⟨?_, fun block i rest own hpath hin => ⟨?_, fun root' edit hroot' h haside => ?_⟩⟩
  · obtain ⟨block, own, hin⟩ := Node.exists_innermost hroot.kind c.path
    obtain ⟨rest, hrest⟩ := hin.isPrefix
    cases rest with
    | nil =>
      -- a declaration opens no scope itself
      rw [List.append_nil] at hrest
      obtain ⟨b, hb, hcases⟩ := Node.opens_iff.mp hin.opens
      rw [hrest, hnode] at hb
      obtain rfl := Option.some.inj hb
      have hkinds : ∀ k ∈ declarationKinds, k ≠ "program" ∧ k ≠ "compound_statement" := by decide
      obtain ⟨hprogram, hblock⟩ := hkinds c.node.kind (List.contains_iff_mem.mp hkind)
      exact (hcases.elim (fun h => hprogram h.1) fun h => hblock h.1).elim
    | cons i rest => exact ⟨block, i, rest, own, hrest.symm, hin⟩
  · obtain ⟨n, hn, -⟩ := Node.opens_iff.mp hin.opens
    refine ⟨n, hn, ?_⟩
    rw [hin.scope_eq hroot.ordered hpath hn hplace]
    exact Scope.reads_foldl own _
  · obtain ⟨n', hn', hedited⟩ := haside.exists_edited hroot h hpath hnode
    obtain ⟨c', hc', rfl⟩ := Cursor.exists_below?_of_at? (c := Cursor.ofRoot root') hn'
    have hscope := haside.scope_eq hroot h hroot' hpath hin hnamed hplace hc'
    have hpath' := Cursor.path_of_below? hc'
    refine ⟨c', ?_, hpath', hscope, parallel_readClass hedited hscope, fun hfun => ?_⟩
    · refine Cursor.mem_find_iff.mpr ⟨by rwa [hedited.kind], by rwa [hpath'], ?_⟩
      rw [hpath']
      exact h.namedAlong (haside.off_path hpath) hnode hnamed
    · rw [hscope]
      exact parallel_readFunction c.scope none hedited (declaring_of_declaration hkind) .root .root

/-! ### A later import -/

/-- A namespace with imports of all forms before a class and one behind it, and
another namespace. -/
def importingFile (last : String) : List Sketch :=
  Sketch.file [
    .braced "A" [.useOf [.qualified "X" "Y"], .useOf (Sketch.aliased (.qualified "X" "Z") "W"),
      .useGroup "P" [.leaf "name" "Q"] (Sketch.aliased (.leaf "name" "R") "S"), .cls "C" [],
      .useOf [.qualified "Z" last]],
    .braced "B" []]

/-- Behind the class something else is imported under the name of an earlier import. This
changes neither its scope, which has the namespace around it and the imports before it, nor what
it declares. -/
theorem scope_of_preceding_statements_later_import :
    let root := Sketch.root (importingFile "Z")
    let root' := Sketch.root (importingFile "Y")
    root.IsProgram ∧ root'.Ordered ∧ Node.Replaced [1, 2, 5] root root' ∧
    ∃ c ∈ (Cursor.ofRoot root).find declarationKinds,
      ∃ c' ∈ (Cursor.ofRoot root').find declarationKinds,
        c.path = [1, 2, 4] ∧ c'.path = c.path ∧
        c.scope = ⟨"A", .ofList [("Y", "X\\Y"), ("W", "X\\Z"), ("Q", "P\\Q"), ("S", "P\\R")]⟩ ∧
        c'.scope = c.scope ∧
        Parallel (Excuse [] c.node c'.node)
          (fun cls cls' => cls'.map ClassOutline.declared = cls.map ClassOutline.declared)
          (readClass [] c) (readClass [] c') := by
  intro root root'
  have hroot : root.IsProgram := by decide +kernel
  have hroot' : root'.Ordered := by decide +kernel
  have hreplaced : Node.Replaced [1, 2, 5] root root' := by decide +kernel
  obtain ⟨c, hc, hpath, hclass, hscope⟩ : ∃ c ∈ (Cursor.ofRoot root).find declarationKinds,
      c.path = [1, 2, 4] ∧ c.node.kind = "class_declaration" ∧
        c.scope = ⟨"A", .ofList [("Y", "X\\Y"), ("W", "X\\Z"), ("Q", "P\\Q"), ("S", "P\\R")]⟩ := by
    decide +kernel
  obtain ⟨n, hn, hkind⟩ : ∃ n ∈ root.at? [1], n.kind = "namespace_definition" := by decide +kernel
  obtain ⟨b, hb, hblock⟩ : ∃ b ∈ root.at? [1, 2], b.kind = "compound_statement" := by
    decide +kernel
  have hin : root.Innermost c.path [1, 2] n.namespaceName := by
    have hnode := Cursor.at?_of_below? (Cursor.mem_find_iff.mp hc).2.1
    rw [hpath] at hnode ⊢
    exact Node.innermost_of_braced hn hkind hb hblock hnode (by simp [hclass])
  obtain ⟨-, h⟩ := scope_of_preceding_statements [] hroot hc
  obtain ⟨-, h⟩ := h [1, 2] 4 [] _ hpath hin
  obtain ⟨c', hc', hpath', hscope', hdeclared, -⟩ :=
    h root' [1, 2, 5] hroot' hreplaced (.after (by decide))
  exact ⟨hroot, hroot', hreplaced, c, hc, c', hc', hpath, hpath', hscope, hscope',
    hdeclared (by simp [hclass, Node.classKinds])⟩

end Outline

end TypeFacts
