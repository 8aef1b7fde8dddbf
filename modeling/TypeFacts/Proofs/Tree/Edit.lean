import Mathlib.Data.List.Forall2
import TypeFacts.Proofs.Tree.Scope

/-!
# Trees that differ in one place

A tree is edited by putting another node in the place of one of its nodes (`Node.Replaced`). What
stands on the way down to it keeps its kind, and all that stands elsewhere is the same but for its
place in the source.

Of a namespace with a body the body is never read, and of most nodes not the text. So if a tree is
edited by replacing the body of a namespace, there is a relation between the two trees
(`Node.Edited`) under which names, imports and modifiers are the same.
-/

namespace TypeFacts

/-! ### Related lists -/

section Related

variable {α β : Type} {R : α → β → Prop} {l : List α} {l' : List β}

/-- Lists are related member by member if and only if they are related at each index. -/
theorem forall₂_iff_getElem? : List.Forall₂ R l l' ↔ ∀ j : Nat, Option.Rel R l[j]? l'[j]? := by
  induction l generalizing l' with
  | nil =>
    cases l' with
    | nil => exact iff_of_true .nil fun j => .none
    | cons b l' => exact iff_of_false (by rintro ⟨⟩) fun h => by cases h 0
  | cons a l ih =>
    cases l' with
    | nil => exact iff_of_false (by rintro ⟨⟩) fun h => by cases h 0
    | cons b l' =>
      rw [List.forall₂_cons, ih]
      constructor
      · rintro ⟨hab, h⟩ (_ | j)
        · exact .some hab
        · exact h j
      · intro h
        cases h 0 with
        | some hab => exact ⟨hab, fun j => h (j + 1)⟩

/-- Predicates that agree on related members find related members. -/
theorem rel_find? {p : α → Bool} {q : β → Bool} (hpq : ∀ a b, R a b → q b = p a)
    (h : List.Forall₂ R l l') :
    Option.Rel (fun a b => R a b ∧ p a = true) (l.find? p) (l'.find? q) := by
  induction h with
  | nil => exact .none
  | @cons a b l l' hab _ ih =>
    rw [List.find?_cons, List.find?_cons, hpq a b hab]
    cases hp : p a with
    | true => exact .some ⟨hab, hp⟩
    | false => exact ih

/-- Predicates that agree on related members leave related lists, all of whose members
satisfy them. -/
theorem rel_filter_and {p : α → Bool} {q : β → Bool} (hpq : ∀ a b, R a b → q b = p a)
    (h : List.Forall₂ R l l') :
    List.Forall₂ (fun a b => p a = true ∧ R a b) (l.filter p) (l'.filter q) := by
  refine (List.forall₂_and_left _ _).mpr ⟨fun a ha => (List.mem_filter.mp ha).2, ?_⟩
  exact List.rel_filter (fun a b hab => Bool.eq_iff_iff.mp (hpq a b hab).symm) h

/-- Of related members each is one of its own list. -/
theorem forall₂_and_mem (h : List.Forall₂ R l l') :
    List.Forall₂ (fun a b => R a b ∧ a ∈ l ∧ b ∈ l') l l' := by
  induction h with
  | nil => exact .nil
  | cons hab _ ih =>
    refine .cons ⟨hab, List.mem_cons_self, List.mem_cons_self⟩ (ih.imp fun a b h => ?_)
    exact ⟨h.1, List.mem_cons_of_mem _ h.2.1, List.mem_cons_of_mem _ h.2.2⟩

theorem rel_orElse {x y : Option α} {x' y' : Option β} (hx : Option.Rel R x x')
    (hy : Option.Rel R y y') : Option.Rel R (x.orElse fun _ => y) (x'.orElse fun _ => y') := by
  cases hx with
  | none => exact hy
  | some h => exact .some h

theorem rel_imp {S : α → β → Prop} {x : Option α} {y : Option β} (h : Option.Rel R x y)
    (himp : ∀ a b, R a b → S a b) : Option.Rel S x y := by
  cases h with
  | none => exact .none
  | some h => exact .some (himp _ _ h)

/-- Related results stay related if related functions continue with them. -/
theorem rel_bind {γ δ : Type} {S : γ → δ → Prop} {x : Option α} {y : Option β} {f : α → Option γ}
    {g : β → Option δ} (h : Option.Rel R x y) (hfg : ∀ a b, R a b → Option.Rel S (f a) (g b)) :
    Option.Rel S (x.bind f) (y.bind g) := by
  cases h with
  | none => exact .none
  | some h => exact hfg _ _ h

/-- Functions that agree on related members give the same lists. -/
theorem map_eq_of_forall₂ {γ : Type} {f : α → γ} {g : β → γ}
    (h : List.Forall₂ (fun a b => g b = f a) l l') : l'.map g = l.map f := by
  induction h with
  | nil => rfl
  | cons hab _ ih => rw [List.map_cons, List.map_cons, hab, ih]

theorem filterMap_eq_of_forall₂ {γ : Type} {f : α → Option γ} {g : β → Option γ}
    (h : List.Forall₂ (fun a b => g b = f a) l l') : l'.filterMap g = l.filterMap f := by
  induction h with
  | nil => rfl
  | cons hab _ ih => rw [List.filterMap_cons, List.filterMap_cons, hab, ih]

end Related

namespace Node

variable {n n' c c' root root' : Node} {i j k : Nat} {p q edit path : List Nat}

/-! ### Replacing a node -/

/-- The nodes agree but for their texts, their places and one child. -/
structure SameBut (i : Nat) (n n' : Node) : Prop where
  kind : n'.kind = n.kind
  isNamed : n'.isNamed = n.isNamed
  role : n'.role = n.role
  others : ∀ j, j ≠ i → n'.children[j]?.map bare = n.children[j]?.map bare

/-- In one tree another node stands at the end of the path than in the other tree. -/
inductive Replaced : List Nat → Node → Node → Prop
  | here (n n' : Node) : Replaced [] n n'
  | inside {i : Nat} {path : List Nat} {n n' c c' : Node} (same : SameBut i n n')
      (child : n.children[i]? = some c) (child' : n'.children[i]? = some c')
      (replaced : Replaced path c c') : Replaced (i :: path) n n'

instance (i : Nat) (n n' : Node) : Decidable (SameBut i n n') :=
  decidable_of_iff (n'.kind = n.kind ∧ n'.isNamed = n.isNamed ∧ n'.role = n.role ∧
      ∀ j < max n.children.length n'.children.length, j ≠ i →
        n'.children[j]?.map bare = n.children[j]?.map bare) <| by
    constructor
    · rintro ⟨hkind, hnamed, hrole, hothers⟩
      refine ⟨hkind, hnamed, hrole, fun j hj => ?_⟩
      by_cases hlt : j < max n.children.length n'.children.length
      · exact hothers j hlt hj
      · rw [List.getElem?_eq_none (by omega), List.getElem?_eq_none (by omega)]
    · exact fun h => ⟨h.kind, h.isNamed, h.role, fun j _ => h.others j⟩

/-- A node is replaced below a child exactly if all else is the same and it is replaced in
the child. -/
theorem replaced_cons_iff : Replaced (i :: path) n n' ↔
    SameBut i n n' ∧ ∃ c ∈ n.children[i]?, ∃ c' ∈ n'.children[i]?, Replaced path c c' := by
  constructor
  · rintro (_ | ⟨hsame, hc, hc', h⟩)
    exact ⟨hsame, _, hc, _, hc', h⟩
  · rintro ⟨hsame, c, hc, c', hc', h⟩
    exact .inside hsame hc hc' h

instance decideReplaced : (path : List Nat) → (n n' : Node) → Decidable (Replaced path n n')
  | [], n, n' => isTrue (.here n n')
  | i :: path, n, n' =>
    have := decideReplaced path
    decidable_of_iff (SameBut i n n' ∧
      ∃ c ∈ n.children[i]?, ∃ c' ∈ n'.children[i]?, Replaced path c c') replaced_cons_iff.symm

theorem rel_bare {x x' : Option Node} (h : x'.map bare = x.map bare) :
    Option.Rel (fun c c' => c'.bare = c.bare) x x' := by
  cases x with
  | none =>
    rw [Option.map_eq_none_iff.mp h]
    exact .none
  | some c =>
    obtain ⟨c', rfl, hbare⟩ := Option.map_eq_some_iff.mp h
    exact .some hbare

/-- Places and faults play no part in a search if they play none in its second half. -/
theorem bind_bare {x x' : Option Node} (h : x'.map bare = x.map bare) {f : Node → Option Node}
    (hf : ∀ c c', c'.bare = c.bare → (f c').map bare = (f c).map bare) :
    (x'.bind f).map bare = (x.bind f).map bare := by
  cases rel_bare h with
  | none => rfl
  | some hbare => exact hf _ _ hbare

/-- Nodes that agree but for places and faults agree so on every path. -/
theorem at?_bare (h : n'.bare = n.bare) (path : List Nat) :
    (n'.at? path).map bare = (n.at? path).map bare := by
  induction path generalizing n n' with
  | nil => exact congrArg some h
  | cons i path ih =>
    rw [at?_cons, at?_cons]
    refine bind_bare ?_ fun c c' hc => ih hc
    rw [← List.getElem?_map, ← List.getElem?_map, (alike_of_bare_eq h).children]

/-- The nodes on the way to the replaced one. -/
theorem Replaced.exists_at? (h : Replaced (p ++ q) root root') :
    ∃ n n', root.at? p = some n ∧ root'.at? p = some n' ∧ Replaced q n n' := by
  induction p generalizing root root' with
  | nil => exact ⟨root, root', rfl, rfl, h⟩
  | cons i p ih =>
    cases h with
    | inside _ hc hc' hreplaced =>
      obtain ⟨n, n', hn, hn', h⟩ := ih hreplaced
      refine ⟨n, n', ?_, ?_, h⟩
      · rw [at?_cons, hc]
        exact hn
      · rw [at?_cons, hc']
        exact hn'

theorem Replaced.sameBut (h : Replaced (i :: path) n n') : SameBut i n n' := by
  cases h with
  | inside same => exact same

/-- A node that was edited below another one was edited in it. -/
theorem Replaced.shorten (h : Replaced (p ++ q) n n') : Replaced p n n' := by
  induction p generalizing n n' with
  | nil => exact .here n n'
  | cons i p ih =>
    cases h with
    | inside same hc hc' hreplaced => exact .inside same hc hc' (ih hreplaced)

/-- What stands elsewhere is the same. -/
theorem Replaced.at?_elsewhere (h : Replaced (p ++ j :: q) root root') (hk : k ≠ j)
    (rest : List Nat) :
    (root'.at? (p ++ k :: rest)).map bare = (root.at? (p ++ k :: rest)).map bare := by
  obtain ⟨n, n', hn, hn', h⟩ := h.exists_at?
  rw [at?_append, at?_append, hn, hn']
  exact bind_bare (h.sameBut.others k hk) fun c c' hc => at?_bare hc rest

/-- On a path that leaves the one to the replaced node, the nodes agree but for places
and faults. -/
theorem Replaced.exists_bare (h : Replaced (p ++ j :: q) root root') (hk : k ≠ j) {rest : List Nat}
    (hn : root.at? (p ++ k :: rest) = some n) :
    ∃ n', root'.at? (p ++ k :: rest) = some n' ∧ n'.bare = n.bare := by
  have hbare := h.at?_elsewhere hk rest
  rw [hn] at hbare
  exact Option.map_eq_some_iff.mp hbare

/-- A path that does not begin with another one ends on it or leaves it. -/
theorem ends_or_leaves (h : ¬ edit <+: q) : (∃ i rest, edit = q ++ i :: rest) ∨
    ∃ p j rest k rest', edit = p ++ j :: rest ∧ q = p ++ k :: rest' ∧ k ≠ j := by
  induction edit generalizing q with
  | nil => exact absurd List.nil_prefix h
  | cons j edit ih =>
    cases q with
    | nil => exact .inl ⟨j, edit, rfl⟩
    | cons k q =>
      by_cases hk : k = j
      · subst hk
        rw [List.prefix_cons_inj] at h
        rcases ih h with ⟨i, rest, rfl⟩ | ⟨p, j, rest, l, rest', rfl, rfl, hl⟩
        · exact .inl ⟨i, rest, rfl⟩
        · exact .inr ⟨k :: p, j, rest, l, rest', rfl, rfl, hl⟩
      · exact .inr ⟨[], j, edit, k, q, rfl, rfl, hk⟩

/-- Outside of the replaced node the kinds of nodes are the same. -/
theorem Replaced.exists_same (h : Replaced edit root root') (hq : ¬ edit <+: q)
    (hn : root.at? q = some n) : ∃ n', root'.at? q = some n' ∧ n'.kind = n.kind ∧
      n'.isNamed = n.isNamed ∧ n'.role = n.role := by
  rcases ends_or_leaves hq with ⟨i, rest, rfl⟩ | ⟨p, j, rest, k, rest', rfl, rfl, hk⟩
  · obtain ⟨m, n', hm, hn', h⟩ := h.exists_at?
    obtain rfl : m = n := Option.some.inj (hm.symm.trans hn)
    exact ⟨n', hn', h.sameBut.kind, h.sameBut.isNamed, h.sameBut.role⟩
  · obtain ⟨n', hn', hbare⟩ := h.exists_bare hk hn
    refine ⟨n', hn', ?_, ?_, ?_⟩
    · simpa using congrArg Node.kind hbare
    · simpa using congrArg Node.isNamed hbare
    · simpa using congrArg Node.role hbare

/-! ### Bodies of namespaces -/

/-- The node is the block of a braced namespace. -/
structure IsBody (n : Node) : Prop where
  kind : n.kind = "compound_statement"
  role : n.role = "body"
  isNamed : n.isNamed = true

/-- The kinds of nodes that are names and modifiers. -/
def wordKinds : List String :=
  ["name", "qualified_name", "namespace_name", "variable_name", "visibility_modifier"]

/-- The kinds of nodes that give names and types to what they declare. -/
def declaringKinds : List String :=
  ["function_definition", "method_declaration", "property_declaration", "property_element",
    "simple_parameter", "variadic_parameter", "property_promotion_parameter",
    "namespace_use_clause", "namespace_use_group_clause"] ++ classKinds

/-- The roles of names and types in such nodes. -/
def wordRoles : List String :=
  ["name", "alias", "type", "return_type"]

/-- Is a part of a node of the kind a name, a type or a modifier? -/
def isWord (kind : String) (c : Node) : Bool :=
  wordKinds.contains c.kind || declaringKinds.contains kind && wordRoles.contains c.role

/-- The nodes are the same wherever they stand, apart from the body of a namespace in them. -/
inductive Edited : Node → Node → Prop
  | same {n n' : Node} (bare : n'.bare = n.bare) : Edited n n'
  | body {n n' c c' : Node} {i : Nat} (same : SameBut i n n')
      (kind : n.kind = "namespace_definition")
      (child : n.children[i]? = some c) (child' : n'.children[i]? = some c') (isBody : c.IsBody)
      (isBody' : c'.IsBody) : Edited n n'
  | inside {n n' c c' : Node} {i : Nat} (same : SameBut i n n') (child : n.children[i]? = some c)
      (child' : n'.children[i]? = some c') (notWord : isWord n.kind c = false)
      (edited : Edited c c') :
      Edited n n'

/-- The parts of nodes that are the same up to the body of a namespace. -/
def PartEdited (kind : String) (c c' : Node) : Prop :=
  Edited c c' ∧ (isWord kind c = true → c'.text = c.text) ∨
    kind = "namespace_definition" ∧ c.IsBody ∧ c'.IsBody

/-- An edited node keeps its kind. -/
theorem Edited.kind (h : Edited n n') : n'.kind = n.kind := by
  cases h with
  | same hbare => simpa using congrArg Node.kind hbare
  | body same => exact same.kind
  | inside same => exact same.kind

theorem Edited.isNamed (h : Edited n n') : n'.isNamed = n.isNamed := by
  cases h with
  | same hbare => simpa using congrArg Node.isNamed hbare
  | body same => exact same.isNamed
  | inside same => exact same.isNamed

theorem Edited.role (h : Edited n n') : n'.role = n.role := by
  cases h with
  | same hbare => simpa using congrArg Node.role hbare
  | body same => exact same.role
  | inside same => exact same.role

section PartEdited

variable {k : String}

theorem PartEdited.kind (h : PartEdited k c c') : c'.kind = c.kind := by
  rcases h with ⟨h, -⟩ | ⟨-, h, h'⟩
  · exact h.kind
  · rw [h.kind, h'.kind]

theorem PartEdited.isNamed (h : PartEdited k c c') : c'.isNamed = c.isNamed := by
  rcases h with ⟨h, -⟩ | ⟨-, h, h'⟩
  · exact h.isNamed
  · rw [h.isNamed, h'.isNamed]

theorem PartEdited.role (h : PartEdited k c c') : c'.role = c.role := by
  rcases h with ⟨h, -⟩ | ⟨-, h, h'⟩
  · exact h.role
  · rw [h.role, h'.role]

/-- A part that is the same but for places and faults counts as edited, in whatever it is a
part of. -/
theorem PartEdited.of_bare (h : c'.bare = c.bare) (k : String) : PartEdited k c c' :=
  .inl ⟨.same h, fun _ => by simpa using congrArg Node.text h⟩

end PartEdited

/-- The children of two nodes are related one by one if the replaced one is, and if places and
faults do not matter. -/
theorem SameBut.forall₂ {R : Node → Node → Prop} (h : SameBut i n n') (hc : n.children[i]? = some c)
    (hc' : n'.children[i]? = some c') (hchild : R c c')
    (hbare : ∀ d d', d'.bare = d.bare → R d d') : List.Forall₂ R n.children n'.children := by
  refine forall₂_iff_getElem?.mpr fun j => ?_
  by_cases hj : j = i
  · rw [hj, hc, hc']
    exact .some hchild
  · exact rel_imp (rel_bare (h.others j hj)) hbare

/-- The children of an edited node are edited parts of it. -/
theorem Edited.children (h : Edited n n') :
    List.Forall₂ (PartEdited n.kind) n.children n'.children := by
  cases h with
  | same hbare =>
    have hchildren := (alike_of_bare_eq hbare).children
    rw [← List.forall₂_eq_eq_eq, List.forall₂_map_left_iff, List.forall₂_map_right_iff] at hchildren
    exact hchildren.flip.imp fun d d' h => .of_bare h _
  | body same hkind hc hc' hbody hbody' =>
    exact same.forall₂ hc hc' (.inr ⟨hkind, hbody, hbody'⟩) fun d d' h => .of_bare h _
  | inside same hc hc' hword hedited =>
    refine same.forall₂ hc hc' (.inl ⟨hedited, fun h => ?_⟩) fun d d' h => .of_bare h _
    rw [hword] at h
    cases h

/-! ### Names, imports and modifiers -/

/-- A part that is not the body of a namespace is edited itself. -/
theorem PartEdited.edited {k : String} (h : PartEdited k c c') (hc : ¬ c.IsBody) : Edited c c' := by
  rcases h with ⟨h, -⟩ | ⟨-, h, -⟩
  · exact h
  · exact absurd h hc

/-- So is every part of a node that is no namespace. -/
theorem PartEdited.edited_of_ne {k : String} (h : PartEdited k c c')
    (hk : k ≠ "namespace_definition") :
    Edited c c' := by
  rcases h with ⟨h, -⟩ | ⟨h, -⟩
  · exact h
  · exact absurd h hk

/-- Names, types and modifiers have the same texts. -/
theorem PartEdited.text {k : String} (h : PartEdited k c c') (hword : isWord k c = true) :
    c'.text = c.text := by
  rcases h with ⟨-, h⟩ | ⟨-, h, -⟩
  · exact h hword
  · have hno : isWord k c = false := by
      rw [isWord, h.kind, h.role]
      cases declaringKinds.contains k <;> rfl
    rw [hno] at hword
    cases hword

/-- A name, a type or a modifier counts as a word in whatever it is a part of. -/
theorem isWord_of_kind {k : String} (h : wordKinds.contains c.kind = true) : isWord k c = true := by
  rw [isWord, h, Bool.true_or]

theorem Edited.namedChildren (h : Edited n n') :
    List.Forall₂ (PartEdited n.kind) n.namedChildren n'.namedChildren :=
  List.rel_filter (fun _ _ hc => Bool.eq_iff_iff.mp hc.isNamed.symm) h.children

/-- The children in a role are edited parts of edited nodes, or there are none in both. -/
theorem Edited.child? (h : Edited n n') (role : String) :
    Option.Rel (fun c c' => PartEdited n.kind c c' ∧ c.role = role) (n.child? role)
      (n'.child? role) := by
  have hfind := rel_find? (p := (·.role == role)) (q := (·.role == role))
    (fun c c' hc => by rw [hc.role]) h.children
  simp only [beq_iff_eq] at hfind
  exact hfind

/-- An edited node has a child in a role if the original has one. -/
theorem Edited.isSome_child? (h : Edited n n') (role : String) :
    (n'.child? role).isSome = (n.child? role).isSome := by
  have hrel := h.child? role
  generalize n.child? role = x, n'.child? role = x' at hrel ⊢
  cases hrel <;> rfl

/-- The first named children of some kinds are edited parts, or there are none in both. -/
theorem Edited.namedOf? (h : Edited n n') (kinds : List String) :
    Option.Rel (fun c c' => PartEdited n.kind c c' ∧ kinds.contains c.kind = true)
      (n.namedOf? kinds)
      (n'.namedOf? kinds) :=
  rel_find? (fun c c' hc => by rw [hc.kind]) h.namedChildren

/-- The names and modifiers of some kinds among the parts of a node. -/
theorem Edited.words (h : Edited n n') {p : String → Bool}
    (hp : ∀ k, p k = true → wordKinds.contains k = true) :
    List.Forall₂ (fun c c' => c'.text = c.text) (n.namedChildren.filter fun c => p c.kind)
      (n'.namedChildren.filter fun c => p c.kind) := by
  refine (rel_filter_and (fun c c' hc => by rw [hc.kind]) h.namedChildren).imp ?_
  rintro c c' ⟨hc, hpart⟩
  exact hpart.text (isWord_of_kind (hp c.kind hc))

/-- A word among the children keeps its text. -/
theorem Edited.namedWord (h : Edited n n') {kinds : List String}
    (hkinds : ∀ k, kinds.contains k = true → wordKinds.contains k = true) :
    Option.Rel (fun c c' => c'.text = c.text) (n.namedOf? kinds) (n'.namedOf? kinds) :=
  rel_imp (h.namedOf? kinds) fun _ _ hc => hc.1.text (isWord_of_kind (hkinds _ hc.2))

/-- The name or the type that a declaration gives. -/
theorem Edited.roleWord (h : Edited n n') (hkind : declaringKinds.contains n.kind = true)
    (role : String) (hrole : wordRoles.contains role = true) :
    Option.Rel (fun c c' => c'.text = c.text) (n.child? role) (n'.child? role) := by
  refine rel_imp (h.child? role) fun c c' hc => hc.1.text ?_
  rw [isWord, hkind, hc.2, hrole, Bool.true_and, Bool.or_true]

/-- The names in imports are words. -/
theorem wordKinds_of_importName (k : String) (h : importNameKinds.contains k = true) :
    wordKinds.contains k = true := by
  have hsub : ∀ k ∈ importNameKinds, wordKinds.contains k = true := by decide
  exact hsub k (List.contains_iff_mem.mp h)

theorem wordKinds_of_name (k : String) (h : ["name"].contains k = true) :
    wordKinds.contains k = true := by
  rw [List.mem_singleton.mp (List.contains_iff_mem.mp h)]
  decide

/-- A clause names the same classes as before. -/
theorem Edited.clauseNames (h : Edited n n') : n'.clauseNames = n.clauseNames := by
  refine map_eq_of_forall₂
    (h.words (p := nameKinds.contains) fun k hk => wordKinds_of_importName k ?_)
  exact List.contains_iff_mem.mpr (List.mem_append_left _ (List.contains_iff_mem.mp hk))

/-- A namespace keeps its name. -/
theorem Edited.namespaceName (h : Edited n n') : n'.namespaceName = n.namespaceName := by
  have hname := h.child? "name"
  unfold Node.namespaceName
  generalize n.child? "name" = name, n'.child? "name" = name' at hname ⊢
  cases hname with
  | none => rfl
  | some hc =>
    have hedited := hc.1.edited fun hbody => by simp [hbody.role] at hc
    have hwords :=
      hedited.words (p := (· == "name")) fun k hk => wordKinds_of_name k (by simpa using hk)
    exact congrArg (Text.joined "\\") (map_eq_of_forall₂ hwords)

/-- A declaration keeps its modifiers. -/
theorem Edited.modifiers (h : Edited n n') : n'.modifiers = n.modifiers := by
  refine filterMap_eq_of_forall₂ (h.children.imp fun c c' hpart => ?_)
  unfold modifierWord?
  rw [hpart.kind]
  split
  · next hkind => rw [hpart.text (isWord_of_kind (by rw [hkind]; decide))]
  all_goals rfl

/-! ### Imports -/

/-- The kinds of nodes that import a name. -/
def importClauseKinds : List String := ["namespace_use_clause", "namespace_use_group_clause"]

/-- An import clause keeps its alias. -/
theorem Edited.importAlias? (h : Edited n n') (hkind : importClauseKinds.contains n.kind = true)
    {names names' : List Node} (hnames : List.Forall₂ (fun c c' => c'.text = c.text) names names') :
    Option.Rel (fun c c' => c'.text = c.text) (importAlias? n names) (importAlias? n' names') := by
  have hdeclaring : declaringKinds.contains n.kind = true := by
    have hsub : ∀ k ∈ importClauseKinds, declaringKinds.contains k = true := by decide
    exact hsub n.kind (List.contains_iff_mem.mp hkind)
  refine rel_orElse (rel_orElse (h.roleWord hdeclaring "alias" (by decide)) ?_)
    (forall₂_iff_getElem?.mp hnames 1)
  refine rel_bind (h.namedOf? ["namespace_aliasing_clause"]) fun c c' hc => ?_
  have hedited := hc.1.edited fun hbody => by simp [hbody.kind] at hc
  exact hedited.namedWord wordKinds_of_name

/-- An import clause imports the same name as before. -/
theorem Edited.importOfClause? (h : Edited n n') (hkind : importClauseKinds.contains n.kind = true)
    (group : String) : importOfClause? group n' = importOfClause? group n := by
  have hnames := h.words (p := importNameKinds.contains) wordKinds_of_importName
  have halias := h.importAlias? hkind hnames
  unfold Node.importOfClause?
  simp only
  generalize n.namedChildren.filter (fun c => importNameKinds.contains c.kind) = names,
    n'.namedChildren.filter (fun c => importNameKinds.contains c.kind) = names' at hnames halias ⊢
  cases hnames with
  | nil => rfl
  | cons hfirst _ =>
    simp only [hfirst]
    generalize Node.importAlias? n _ = short, Node.importAlias? n' _ = short' at halias ⊢
    cases halias with
    | none => rfl
    | some hshort => simp only [hshort]

/-- The parts of an import give the same imports, one after the other. -/
theorem importsOfParts_eq {k : String} {parts parts' : List Node}
    (h : List.Forall₂ (PartEdited k) parts parts') (group : String) :
    importsOfParts group parts' = importsOfParts group parts := by
  induction h generalizing group with
  | nil => rfl
  | @cons part part' parts parts' hpart _ ih =>
    rw [importsOfParts, importsOfParts, hpart.kind]
    split_ifs with hclause hgroup hname
    · have hkind := beq_iff_eq.mp hclause
      have hedited := hpart.edited fun hbody => by simp [hbody.kind] at hkind
      rw [ih, hedited.importOfClause? (by rw [hkind]; decide)]
    · have hkind := beq_iff_eq.mp hgroup
      have hedited := hpart.edited fun hbody => by simp [hbody.kind] at hkind
      rw [ih]
      congr 1
      refine filterMap_eq_of_forall₂ ?_
      refine (rel_filter_and (fun c c' hc => by rw [hc.kind]) hedited.namedChildren).imp ?_
      rintro c c' ⟨hc, hpart⟩
      have hedited := hpart.edited fun hbody => by simp [hbody.kind] at hc
      exact hedited.importOfClause? (by simpa [importClauseKinds] using hc) group
    · rw [ih, hpart.text (isWord_of_kind (wordKinds_of_importName _ hname))]
    · exact ih group

/-- A declaration imports the same as before. -/
theorem Edited.imports (h : Edited n n') : n'.imports = n.imports :=
  importsOfParts_eq h.namedChildren ""

/-! ### Statements -/

/-- An edited statement changes a scope as the original does. -/
theorem Edited.afterStatement (h : Edited n n') (scope : Scope) :
    scope.afterStatement n' = scope.afterStatement n := by
  have hbody : (n'.child? "body").isNone = (n.child? "body").isNone := by
    rw [← Option.not_isSome, ← Option.not_isSome, h.isSome_child?]
  rw [Scope.afterStatement, Scope.afterStatement, h.kind, hbody, h.namespaceName, h.imports]

/-- Edited statements make the same scope as the original ones. -/
theorem foldl_afterStatement {statements statements' : List Node}
    (h : List.Forall₂ Edited statements statements') (scope : Scope) :
    statements'.foldl Scope.afterStatement scope = statements.foldl Scope.afterStatement scope := by
  induction h generalizing scope with
  | nil => rfl
  | cons hn _ ih => rw [List.foldl_cons, List.foldl_cons, hn.afterStatement, ih]

end Node

end TypeFacts
