import Mathlib.Logic.Function.Iterate
import TypeFacts.Proofs.Tree.Faults
import TypeFacts.Proofs.Tree.Place

/-!
# The order of a search

A search keeps a stack of places that are still to be visited. It takes the last one off and puts
the named children of this place on the stack, the first child on top (`Cursor.Walk.step`). The
places on the stack stand for what is still to come: the traversals of their nodes, one after the
other (`Cursor.Walk.pending`). Each step takes the first node off that list, so the search ends
after as many steps as there are nodes in the traversal of the root
(`Cursor.Walk.stack_eq_nil_iff`), and it finds the nodes of the kinds in the order of the traversal
(`Cursor.map_node_find`).

* The places on a stack lie side by side, the next one leftmost, and what is below them does so too.
  So a search finds each place once, a parent before what is below it and what is in an earlier
  child before what is in a later one (`Cursor.pairwise_find`).
* Where the ranges of a shape lie in each other and side by side (`Shape.Ranged`), this is the order
  in which the nodes begin in the source (`Node.pairwise_start_preorder`).
-/

namespace TypeFacts

/-! ### Traversals -/

namespace Node

/-- Named children are traversed one after the other. -/
theorem preorderNamed_eq (cs : List Node) :
    preorderNamed cs = (cs.filter isNamed).flatMap preorder := by
  induction cs with
  | nil => rfl
  | cons c cs ih =>
    rw [preorderNamed, List.filter_cons, ih]
    split_ifs
    · rw [List.flatMap_cons]
    · rfl

/-- A node comes before the traversals of its named children. -/
theorem preorder_eq (n : Node) : n.preorder = n :: n.namedChildren.flatMap preorder := by
  cases n
  rw [preorder, preorderNamed_eq]
  rfl

theorem preorder_ne_nil (n : Node) : n.preorder ≠ [] := by
  rw [preorder_eq]
  exact List.cons_ne_nil _ _

end Node

namespace Cursor

variable {c d e : Cursor} {kinds : List String} {places : List Cursor}

theorem flatMap_preorder_namedChildren (c : Cursor) :
    c.namedChildren.flatMap (·.node.preorder) = c.node.namedChildren.flatMap Node.preorder := by
  rw [← map_node_namedChildren, List.flatMap_map]

/-- What a search finds on its way through several places are the nodes of the kinds in their
traversals, in order. -/
theorem map_node_search (kinds : List String) (places : List Cursor) :
    (search kinds places).map node
      = (places.flatMap (·.node.preorder)).filter fun n => kinds.contains n.kind := by
  -- one step replaces a place by its children, whose traversals are the rest of its own
  have hstep : ∀ (c : Cursor) (rest : List Cursor), (c :: rest).flatMap (·.node.preorder)
      = c.node :: (c.namedChildren ++ rest).flatMap (·.node.preorder) := by
    intro c rest
    rw [List.flatMap_cons, List.flatMap_append, flatMap_preorder_namedChildren, Node.preorder_eq,
      List.cons_append]
  fun_induction search kinds places with
  | case1 => rfl
  | case2 c rest hkind ih => rw [hstep, List.filter_cons, if_pos hkind, ← ih, List.map_cons]
  | case3 c rest hkind ih => rw [hstep, List.filter_cons, if_neg hkind, ih]

/-- What a search finds are the nodes of its kinds, in the order of the traversal. -/
theorem map_node_find (c : Cursor) (kinds : List String) :
    (c.find kinds).map node = c.node.preorder.filter fun n => kinds.contains n.kind := by
  rw [find, map_node_search, List.flatMap_singleton]

/-! ### Steps of a search -/

/-- A search on its way: the places that are still to be visited, the next one last, and those that
were found so far. -/
structure Walk where
  stack : List Cursor
  found : List Cursor

namespace Walk

/-- Visits the last place of the stack and puts its named children in its place, the first
one last. -/
def step (kinds : List String) (w : Walk) : Walk :=
  match w.stack.getLast? with
  | none => w
  | some c =>
    { stack := w.stack.dropLast ++ c.namedChildren.reverse
      found := if kinds.contains c.node.kind then w.found ++ [c] else w.found }

/-- The nodes that are still to be visited, in order. -/
def pending (w : Walk) : List Node :=
  w.stack.reverse.flatMap (·.node.preorder)

/-- A step takes the last place off the stack and puts its named children on it, the first one
on top. -/
theorem step_concat (stack found : List Cursor) (c : Cursor) :
    step kinds ⟨stack ++ [c], found⟩
      = ⟨stack ++ c.namedChildren.reverse,
        if kinds.contains c.node.kind then found ++ [c] else found⟩ := by
  simp [step]

/-- A step visits the first node that is pending. -/
theorem pending_step (kinds : List String) (w : Walk) :
    (w.step kinds).pending = w.pending.tail := by
  obtain ⟨stack, found⟩ := w
  rcases List.eq_nil_or_concat stack with rfl | ⟨stack, c, rfl⟩
  · rfl
  · rw [List.concat_eq_append, step_concat, pending, pending, List.reverse_append,
      List.reverse_reverse,
      List.reverse_append, List.reverse_singleton, List.singleton_append, List.flatMap_cons,
      List.flatMap_append, flatMap_preorder_namedChildren, Node.preorder_eq, List.cons_append,
      List.tail_cons]

/-- A step keeps what is found in the end. -/
theorem found_step (kinds : List String) (w : Walk) :
    (w.step kinds).found ++ search kinds (w.step kinds).stack.reverse
      = w.found ++ search kinds w.stack.reverse := by
  obtain ⟨stack, found⟩ := w
  rcases List.eq_nil_or_concat stack with rfl | ⟨stack, c, rfl⟩
  · rfl
  · rw [List.concat_eq_append, step_concat]
    simp only [List.reverse_append, List.reverse_reverse, List.reverse_singleton,
      List.singleton_append]
    conv_rhs => rw [search]
    split_ifs
    · rw [List.append_assoc, List.singleton_append]
    · rfl

/-- After some steps the nodes visited are gone from those that are pending. -/
theorem pending_iterate (kinds : List String) (w : Walk) (k : Nat) :
    ((step kinds)^[k] w).pending = w.pending.drop k := by
  induction k with
  | zero => rfl
  | succ k ih => rw [Function.iterate_succ_apply', pending_step, ih, List.tail_drop]

/-- What was found and what will be found are the same together after each step. -/
theorem found_iterate (kinds : List String) (w : Walk) (k : Nat) :
    ((step kinds)^[k] w).found ++ search kinds ((step kinds)^[k] w).stack.reverse
      = w.found ++ search kinds w.stack.reverse := by
  induction k with
  | zero => rfl
  | succ k ih => rw [Function.iterate_succ_apply', found_step, ih]

/-- Nothing is pending exactly if the stack is empty. -/
theorem pending_eq_nil_iff (w : Walk) : w.pending = [] ↔ w.stack = [] := by
  rw [pending, List.flatMap_eq_nil_iff, List.eq_nil_iff_forall_not_mem]
  exact forall_congr' fun c => by simp [Node.preorder_ne_nil]

/-- The search ends after as many steps as there are nodes in the traversal. -/
theorem stack_eq_nil_iff (kinds : List String) (c : Cursor) (k : Nat) :
    ((step kinds)^[k] ⟨[c], []⟩).stack = [] ↔ c.node.preorder.length ≤ k := by
  have hstart : (⟨[c], []⟩ : Walk).pending = c.node.preorder := List.flatMap_singleton _ _
  rw [← pending_eq_nil_iff, pending_iterate, hstart, List.drop_eq_nil_iff]

/-- At its end it has found what there is to find. -/
theorem found_of_stack_eq_nil {k : Nat} (h : ((step kinds)^[k] ⟨[c], []⟩).stack = []) :
    ((step kinds)^[k] ⟨[c], []⟩).found = c.find kinds := by
  have hfound := found_iterate kinds ⟨[c], []⟩ k
  rw [h, List.reverse_nil, search, List.append_nil] at hfound
  exact hfound

end Walk

/-! ### Places in order -/

/-- Where the ways to the two places part, the first one goes to an earlier child. -/
def LeftOf (c d : Cursor) : Prop :=
  ∃ around i j p q, i < j ∧ c.path = around ++ i :: p ∧ d.path = around ++ j :: q

/-- The first place is above the second one or left of it. -/
def Precedes (c d : Cursor) : Prop :=
  (∃ i p, d.path = c.path ++ i :: p) ∨ c.LeftOf d

/-- No place comes before itself. -/
theorem Precedes.ne (h : c.Precedes d) : c ≠ d := by
  rintro rfl
  rcases h with ⟨i, p, hpath⟩ | ⟨around, i, j, p, q, hlt, hi, hj⟩
  · simp at hpath
  · rw [hi, List.append_cancel_left_eq, List.cons.injEq] at hj
    omega

theorem path_of_above {frame : Frame} (h : d.above = frame :: c.above) :
    d.path = c.path ++ [frame.before.length] := by
  rw [path, h, List.map_cons, List.reverse_cons]
  rfl

/-- The path of a named child is one longer than that of its parent. -/
theorem exists_path_of_mem_namedChildren (h : d ∈ c.namedChildren) :
    ∃ i, d.path = c.path ++ [i] := by
  obtain ⟨i, -, -, habove⟩ := mem_placesAfter_iff.mp h
  exact ⟨_, path_of_above habove⟩

/-- A place that is reached has a longer path. -/
theorem Reaches.exists_path (h : c.Reaches d) : ∃ p, d.path = c.path ++ p := by
  induction h with
  | refl => exact ⟨[], (List.append_nil _).symm⟩
  | tail _ hchild ih =>
    obtain ⟨p, hp⟩ := ih
    obtain ⟨i, hi⟩ := exists_path_of_mem_namedChildren hchild
    exact ⟨p ++ [i], by rw [hi, hp, List.append_assoc]⟩

/-- What is below a place is left of what is below another one that it is left of. -/
theorem LeftOf.of_reaches {c' d' : Cursor} (h : c.LeftOf d) (hc : c.Reaches c')
    (hd : d.Reaches d') :
    c'.LeftOf d' := by
  obtain ⟨around, i, j, p, q, hlt, hi, hj⟩ := h
  obtain ⟨p', hp'⟩ := hc.exists_path
  obtain ⟨q', hq'⟩ := hd.exists_path
  refine ⟨around, i, j, p ++ p', q ++ q', hlt, ?_, ?_⟩
  · rw [hp', hi, List.append_assoc, List.cons_append]
  · rw [hq', hj, List.append_assoc, List.cons_append]

/-- Named children stand from left to right. -/
theorem pairwise_namedChildren (c : Cursor) : c.namedChildren.Pairwise LeftOf := by
  have hplaces : ∀ before cs, (placesAfter c.node c.above before cs).Pairwise LeftOf := by
    intro before cs
    induction cs generalizing before with
    | nil => exact .nil
    | cons n cs ih =>
      rw [placesAfter]
      split_ifs
      · refine List.pairwise_cons.mpr ⟨fun d hd => ?_, ih (n :: before)⟩
        -- a later child has at least one sibling more before it
        obtain ⟨i, -, -, habove⟩ := mem_placesAfter_iff.mp hd
        refine ⟨c.path, _, _, [], [], ?_, path_of_above rfl, path_of_above habove⟩
        simp only [List.length_append, List.length_cons]
        omega
      · exact ih (n :: before)
  exact hplaces [] c.node.children

/-- If the places to visit lie side by side, what is found is in order. -/
theorem pairwise_search (h : places.Pairwise LeftOf) : (search kinds places).Pairwise Precedes := by
  have hnext : ∀ {c rest}, (c :: rest).Pairwise LeftOf →
    (c.namedChildren ++ rest).Pairwise LeftOf := by
    intro c rest h
    obtain ⟨hfirst, hrest⟩ := List.pairwise_cons.mp h
    refine List.pairwise_append.mpr ⟨pairwise_namedChildren c, hrest, fun d hd r hr => ?_⟩
    exact (hfirst r hr).of_reaches (.single hd) .refl
  fun_induction search kinds places with
  | case1 => exact .nil
  | case2 c rest _ ih =>
    refine List.pairwise_cons.mpr ⟨fun d hd => ?_, ih (hnext h)⟩
    obtain ⟨-, s, hs, hreach⟩ := mem_search_iff.mp hd
    rcases List.mem_append.mp hs with hs | hs
    · obtain ⟨i, hi⟩ := exists_path_of_mem_namedChildren hs
      obtain ⟨p, hp⟩ := hreach.exists_path
      exact .inl ⟨i, p, by rw [hp, hi, List.append_assoc, List.singleton_append]⟩
    · exact .inr (((List.pairwise_cons.mp h).1 s hs).of_reaches .refl hreach)
  | case3 c rest _ ih => exact ih (hnext h)

/-- Places are found in the order of the source. -/
theorem pairwise_find (c : Cursor) (kinds : List String) : (c.find kinds).Pairwise Precedes :=
  pairwise_search (List.pairwise_singleton LeftOf c)

/-- A search finds all places of its kinds that it can reach, and no others. -/
theorem mem_find_iff_reaches : d ∈ c.find kinds ↔ d.node.kind ∈ kinds ∧ c.Reaches d := by
  rw [find, mem_search_iff, List.contains_iff_mem]
  simp

end Cursor

/-! ### Order of the source -/

namespace Shape

/-- The first byte of the range. -/
def start : Shape → Nat
  | mk _ _ _ _ s .. => s

/-- The byte behind the range. -/
def stop : Shape → Nat
  | mk _ _ _ _ _ t .. => t

/-- The ranges of the children lie in the range of the node, one behind the other, and so
on below. -/
inductive Ranged : Shape → Prop
  | mk {kind role : String} {named missing hasError : Bool} {start stop : Nat}
      {children : List Shape}
      (bounds : start ≤ stop) (inside : ∀ c ∈ children, start ≤ c.start ∧ c.stop ≤ stop)
      (apart : children.Pairwise fun c d => c.stop ≤ d.start) (ranged : ∀ c ∈ children, c.Ranged) :
      Ranged (mk kind named missing hasError start stop role children)

end Shape

namespace Node

variable {source : List UInt8} {shape : Shape}

/-- The line of a node is the one in which its text begins. -/
theorem line_ofShape (source : List UInt8) (shape : Shape) :
    (ofShape source shape).line = rowAt source (ofShape source shape).start + 1 := by
  cases shape
  rfl

/-- Further on in a source rows do not get smaller. -/
theorem rowAt_mono (source : List UInt8) {a b : Nat} (h : a ≤ b) :
    rowAt source a ≤ rowAt source b :=
  (List.take_prefix_take_left h).sublist.count_le 10

/-- The children of a node of a shape are the nodes of its children. -/
theorem namedChildren_ofShape (kind role : String) (named missing hasError : Bool)
    (start stop : Nat) (shapes : List Shape) :
    (ofShape source (.mk kind named missing hasError start stop role shapes)).namedChildren
      = (shapes.map (ofShape source)).filter isNamed := by
  rw [namedChildren, ofShape, children, ofShapes_eq_map]

/-- The nodes of a shape begin in its range. -/
theorem start_of_mem_preorder (h : shape.Ranged) :
    ∀ n ∈ (ofShape source shape).preorder, shape.start ≤ n.start ∧ n.start ≤ shape.stop := by
  induction h with
  | @mk kind role named missing hasError start stop shapes bounds inside _ _ ih =>
    intro n hn
    rw [preorder_eq, namedChildren_ofShape] at hn
    rcases List.mem_cons.mp hn with rfl | hn
    · exact ⟨Nat.le_refl _, bounds⟩
    · obtain ⟨c, hc, hn⟩ := List.mem_flatMap.mp hn
      obtain ⟨s, hs, rfl⟩ := List.mem_map.mp (List.mem_filter.mp hc).1
      obtain ⟨hfirst, hlast⟩ := ih s hs n hn
      exact ⟨Nat.le_trans (inside s hs).1 hfirst, Nat.le_trans hlast (inside s hs).2⟩

/-- In the traversal the nodes stand in the order in which they begin. -/
theorem pairwise_start_preorder (h : shape.Ranged) :
    (ofShape source shape).preorder.Pairwise (·.start ≤ ·.start) := by
  induction h with
  | @mk kind role named missing hasError start stop shapes bounds inside apart ranged ih =>
    have hranged : (Shape.mk kind named missing hasError start stop role shapes).Ranged :=
      .mk bounds inside apart ranged
    have hroot :
        ∀ n ∈ (ofShape source (.mk kind named missing hasError start stop role shapes)).preorder,
        start ≤ n.start := fun n hn => (start_of_mem_preorder hranged n hn).1
    rw [preorder_eq, namedChildren_ofShape] at hroot ⊢
    refine List.pairwise_cons.mpr ⟨fun n hn => hroot n (List.mem_cons_of_mem _ hn), ?_⟩
    refine List.pairwise_flatMap.mpr
      ⟨fun c hc => ?_, List.Pairwise.filter _ (List.pairwise_map.mpr ?_)⟩
    · obtain ⟨s, hs, rfl⟩ := List.mem_map.mp (List.mem_filter.mp hc).1
      exact ih s hs
    · -- what is in the earlier child begins before its end, and the later child begins behind that
      refine apart.imp_of_mem fun {s s'} hs hs' hle n hn m hm => ?_
      have hn := start_of_mem_preorder (ranged s hs) n hn
      have hm := start_of_mem_preorder (ranged s' hs') m hm
      omega

end Node

/-- So do the places that a search finds. -/
theorem Cursor.pairwise_start_find {source : List UInt8} {shape : Shape} (h : shape.Ranged)
    (kinds : List String) :
    ((ofRoot (Node.ofShape source shape)).find kinds).Pairwise fun c d =>
      c.node.start ≤ d.node.start ∧ c.node.line ≤ d.node.line := by
  have hline : ∀ c ∈ (ofRoot (Node.ofShape source shape)).find kinds,
      c.node.line = Node.rowAt source c.node.start + 1 := by
    intro c hc
    obtain ⟨s, hs⟩ := Node.exists_shape_of_within ((Node.closed_within _).find .root c hc)
    rw [hs]
    exact Node.line_ofShape source s
  have hstart : (((ofRoot (Node.ofShape source shape)).find kinds).map node).Pairwise
      (·.start ≤ ·.start) := by
    rw [map_node_find]
    exact (Node.pairwise_start_preorder h).filter _
  refine (List.pairwise_map.mp hstart).imp_of_mem fun {c d} hc hd hle => ⟨hle, ?_⟩
  rw [hline c hc, hline d hd]
  exact Nat.succ_le_succ (Node.rowAt_mono source hle)

end TypeFacts
