import Mathlib.Data.List.Basic
import Mathlib.Data.List.Induction
import TypeFacts.Proofs.Tree.Node
import TypeFacts.Tree.SourceReader

/-!
# The faults that are reported

A tree has faults wherever its source does not follow the grammar. Reported are the outermost ones,
in order of the source and up to a limit: `Node.outermostFaults` picks them from the list of all
nodes and what stands around each. The search for them keeps a list of nodes still to visit, passes
over the nodes that are not marked, and stops at the limit. It finds the same faults in the same
order wherever the marks are exact (`Node.faultsAmong_eq`).

`SourceReader.read_reports_outermost` states this for a reader in use: what a source gives, that a
smaller limit gives the beginning of what a larger one gives, and that all that was reported since
the last clearing is kept.
-/

namespace TypeFacts

namespace Node

variable {n c f root : Node}

/-! ### Outermost faults -/

/-- Is a node a fault that does not stand in another one? -/
def isOutermost (p : List Node × Node) : Bool :=
  p.2.isFault && p.1.all fun a => !a.isFault

/-- The faults of a tree that do not stand in another one, in order of the source. -/
def outermostFaults (root : Node) : List Node :=
  ((root.occurrences []).filter isOutermost).map Prod.snd

/-- Within a fault nothing is outermost. -/
theorem filter_occurrences_of_fault {around : List Node} (hf : f ∈ around)
    (hfault : f.isFault = true) (n : Node) : (n.occurrences around).filter isOutermost = [] := by
  have hself : isOutermost (around, n) = false := by
    refine Bool.and_eq_false_imp.mpr fun _ => List.all_eq_false.mpr ⟨f, hf, ?_⟩
    simp [hfault]
  have hparts : ∀ c ∈ n.children, (c.occurrences (n :: around)).filter isOutermost = [] :=
    fun c hc =>
      have := sizeOf_lt_of_mem hc
      filter_occurrences_of_fault (List.mem_cons_of_mem n hf) hfault c
  rw [occurrences_eq, List.filter_cons_of_neg (by simp [hself]), List.filter_flatMap]
  exact List.flatMap_eq_nil_iff.mpr hparts
termination_by sizeOf n

/-- What stands around does not count as long as it is no fault. -/
theorem outermost_around {around : List Node} (haround : ∀ a ∈ around, a.isFault = false)
    (n : Node) :
    ((n.occurrences around).filter isOutermost).map Prod.snd
      = if n.isFault then [n] else n.children.flatMap outermostFaults := by
  have hself : isOutermost (around, n) = n.isFault := by
    have hall : (around.all fun a => !a.isFault) = true :=
      List.all_eq_true.mpr fun a ha => by simp [haround a ha]
    simp [isOutermost, hall]
  rw [occurrences_eq, List.filter_cons, hself, List.filter_flatMap]
  split_ifs with hfault
  · have hparts : ∀ c ∈ n.children, (c.occurrences (n :: around)).filter isOutermost = [] :=
      fun c _ => filter_occurrences_of_fault List.mem_cons_self hfault c
    rw [List.flatMap_eq_nil_iff.mpr hparts]
    rfl
  · have hnext : ∀ a ∈ n :: around, a.isFault = false :=
      List.forall_mem_cons.mpr ⟨by simpa using hfault, haround⟩
    rw [List.map_flatMap]
    refine List.flatMap_congr fun c hc => ?_
    have := sizeOf_lt_of_mem hc
    rw [outermost_around hnext c, outermostFaults, outermost_around (by simp) c]
termination_by sizeOf n

/-- A fault is outermost itself, and else the faults are those of the children. -/
theorem outermostFaults_eq (n : Node) :
    n.outermostFaults = if n.isFault then [n] else n.children.flatMap outermostFaults :=
  outermost_around (by simp) n

/-- A tree without faults has no outermost ones, and every other tree has. -/
theorem outermostFaults_eq_nil_iff (n : Node) :
    n.outermostFaults = [] ↔ ∀ f, n.Within f → f.isFault = false := by
  rw [outermostFaults_eq]
  split_ifs with hfault
  · refine iff_of_false (by simp) fun h => ?_
    rw [h n .root] at hfault
    cases hfault
  · rw [List.flatMap_eq_nil_iff]
    have hparts : (∀ c ∈ n.children, c.outermostFaults = []) ↔
        ∀ c ∈ n.children, ∀ f, c.Within f → f.isFault = false := by
      refine forall₂_congr fun c hc => ?_
      have := sizeOf_lt_of_mem hc
      exact outermostFaults_eq_nil_iff c
    rw [hparts]
    constructor
    · intro h f hf
      rcases within_iff.mp hf with rfl | ⟨c, hc, hf⟩
      · simpa using hfault
      · exact h c hc f hf
    · exact fun h c hc f hf => h f (within_iff.mpr (.inr ⟨c, hc, hf⟩))
termination_by sizeOf n

/-! ### The search -/

/-- A node of the tree is marked exactly if there is a fault in it or below it. -/
def FlagsExact (root : Node) : Prop :=
  ∀ n, root.Within n → (n.hasError = true ↔ ∃ f, n.Within f ∧ f.isFault = true)

theorem FlagsExact.of_mem (h : n.FlagsExact) (hc : c ∈ n.children) : c.FlagsExact :=
  fun m hm => h m ((Within.root.child hc).trans hm)

/-- Marks are exact where each node has that of its own and of its parts. -/
theorem flagsExact_of_children (hparts : ∀ c ∈ n.children, c.FlagsExact)
    (h : n.hasError = (n.isFault || n.children.any hasError)) : n.FlagsExact := by
  intro m hm
  rcases within_iff.mp hm with rfl | ⟨c, hc, hm⟩
  · rw [h, Bool.or_eq_true, List.any_eq_true]
    constructor
    · rintro (hfault | ⟨c, hc, herror⟩)
      · exact ⟨m, .root, hfault⟩
      · obtain ⟨f, hf, hfault⟩ := (hparts c hc c .root).mp herror
        exact ⟨f, within_iff.mpr (.inr ⟨c, hc, hf⟩), hfault⟩
    · rintro ⟨f, hf, hfault⟩
      rcases within_iff.mp hf with rfl | ⟨c, hc, hf⟩
      · exact .inl hfault
      · exact .inr ⟨c, hc, (hparts c hc c .root).mpr ⟨f, hf, hfault⟩⟩
  · exact hparts c hc m hm

theorem FlagsExact.outermostFaults_eq_nil (h : n.FlagsExact) (hmark : n.hasError = false) :
    n.outermostFaults = [] := by
  refine (outermostFaults_eq_nil_iff n).mpr fun f hf => ?_
  by_contra hfault
  rw [(h n .root).mpr ⟨f, hf, by simpa using hfault⟩] at hmark
  cases hmark

/-- The search through a list of nodes finds their outermost faults, one after the other, up to
the limit. -/
theorem faultsAmong_eq {nodes : List Node} (h : ∀ n ∈ nodes, n.FlagsExact) (limit : Nat) :
    faultsAmong limit nodes = ((nodes.flatMap outermostFaults).take limit).map toFault := by
  -- the nodes still to visit stand for the faults still to report
  fun_induction faultsAmong limit nodes with
  | case1 nodes => rw [List.take_zero, List.map_nil]
  | case2 limit => rw [List.flatMap_nil, List.take_nil, List.map_nil]
  | case3 limit n rest hfault ih =>
    have hn : n.outermostFaults = [n] := by rw [outermostFaults_eq, if_pos hfault]
    rw [List.flatMap_cons, hn, List.singleton_append, List.take_succ_cons, List.map_cons,
      ih fun m hm => h m (List.mem_cons_of_mem n hm)]
  | case4 limit n rest hfault _ ih =>
    have hn : n.outermostFaults = n.children.flatMap outermostFaults := by
      rw [outermostFaults_eq, if_neg hfault]
    have hnodes : ∀ m ∈ n.children ++ rest, m.FlagsExact := List.forall_mem_append.mpr
      ⟨fun c hc => (h n List.mem_cons_self).of_mem hc, fun m hm => h m (List.mem_cons_of_mem n hm)⟩
    rw [ih hnodes, List.flatMap_append, List.flatMap_cons, hn]
  | case5 limit n rest _ hmark ih =>
    have hn := (h n List.mem_cons_self).outermostFaults_eq_nil (by simpa using hmark)
    rw [ih fun m hm => h m (List.mem_cons_of_mem n hm), List.flatMap_cons, hn, List.nil_append]

/-- With exact marks the search finds the outermost faults, up to the limit. -/
theorem faults_eq (h : root.FlagsExact) (limit : Nat) :
    root.faults limit = (root.outermostFaults.take limit).map toFault := by
  rw [faults, faultsAmong_eq (by simpa using h), List.flatMap_singleton]

/-! ### Lines and columns -/

/-- The record of a fault in a source, with its line and its column counted from one. -/
def faultAt (source : List UInt8) (n : Node) : SourceFault :=
  ⟨n.faultMessage, rowAt source n.start + 1, columnAt source n.start + 1⟩

theorem ofShapes_eq_map (source : List UInt8) (shapes : List Shape) :
    ofShapes source shapes = shapes.map (ofShape source) := by
  induction shapes with
  | nil => rfl
  | cons s shapes ih => rw [ofShapes, ih, List.map_cons]

/-- The nodes of a tree that is made of a shape are made of shapes. -/
theorem exists_shape_of_within {source : List UInt8} {shape : Shape}
    (h : (ofShape source shape).Within n) : ∃ s, n = ofShape source s := by
  induction h with
  | root => exact ⟨shape, rfl⟩
  | child _ hc ih =>
    obtain ⟨⟨_, _, _, _, _, _, _, shapes⟩, rfl⟩ := ih
    rw [ofShape, children, ofShapes_eq_map] at hc
    obtain ⟨s, -, rfl⟩ := List.mem_map.mp hc
    exact ⟨s, rfl⟩

theorem toFault_ofShape (source : List UInt8) (shape : Shape) :
    (ofShape source shape).toFault = faultAt source (ofShape source shape) := by
  obtain ⟨_, _, _, _, _, _, _, _⟩ := shape
  rfl

theorem within_of_mem_outermostFaults {n : Node} (h : f ∈ n.outermostFaults) : n.Within f := by
  rw [outermostFaults_eq] at h
  split_ifs at h
  · rw [List.mem_singleton.mp h]
    exact .root
  · obtain ⟨c, hc, hf⟩ := List.mem_flatMap.mp h
    have := sizeOf_lt_of_mem hc
    exact within_iff.mpr (.inr ⟨c, hc, within_of_mem_outermostFaults hf⟩)
termination_by sizeOf n

theorem map_toFault_outermostFaults (source : List UInt8) (shape : Shape) (limit : Nat) :
    ((ofShape source shape).outermostFaults.take limit).map toFault
      = ((ofShape source shape).outermostFaults.take limit).map (faultAt source) := by
  refine List.map_congr_left fun f hf => ?_
  obtain ⟨s, rfl⟩ :=
    exists_shape_of_within (within_of_mem_outermostFaults (List.mem_of_mem_take hf))
  exact toFault_ofShape source s

end Node

/-! ### Readers in use -/

namespace SourceReader

/-- What a reader of sources is asked to do. -/
inductive Act where
  | read (bytes : List UInt8)
  | clear

/-- The reader after one more act. -/
def step (r : SourceReader) : Act → SourceReader
  | .read bytes => (r.read bytes).2
  | .clear => r.clear

/-- The reader after several acts. -/
def after (r : SourceReader) (acts : List Act) : SourceReader :=
  acts.foldl step r

/-- The faults that an act reports; clearing reports none. -/
def reply (r : SourceReader) : Act → Option (List SourceFault)
  | .read bytes => some (r.read bytes).1.2
  | .clear => none

/-- What each act of a run reports. -/
def replies (r : SourceReader) : List Act → List (Option (List SourceFault))
  | [] => []
  | act :: acts => r.reply act :: replies (r.step act) acts

/-- The lists that were reported behind the last clearing, in order. -/
def sinceLastClear (replies : List (Option (List SourceFault))) : List (List SourceFault) :=
  (replies.reverse.takeWhile Option.isSome).reverse.filterMap id

theorem replies_append (r : SourceReader) (acts more : List Act) :
    r.replies (acts ++ more) = r.replies acts ++ (r.after acts).replies more := by
  induction acts generalizing r with
  | nil => rfl
  | cons act acts ih => exact congrArg (_ :: ·) (ih (r.step act))

theorem after_concat (r : SourceReader) (acts : List Act) (act : Act) :
    r.after (acts ++ [act]) = (r.after acts).step act :=
  List.foldl_append

/-- The kept faults are those that were reported since the last clearing. -/
theorem faults_after {r : SourceReader} (hr : r.faults = []) (acts : List Act) :
    (r.after acts).faults = (sinceLastClear (r.replies acts)).flatten := by
  -- the induction is on the last act, since clearing forgets all that was before it
  induction acts using List.reverseRecOn with
  | nil => exact hr
  | append_singleton acts act ih =>
    rw [after_concat, replies_append]
    cases act with
    | read bytes =>
      change (r.after acts).faults ++ ((r.after acts).read bytes).1.2 = _
      rw [ih]
      simp [sinceLastClear, replies, reply]
    | clear => simp [sinceLastClear, replies, reply, step, clear]

/-- Acts change nothing but the kept faults. -/
theorem after_eq (r : SourceReader) (acts : List Act) :
    r.after acts = { r with faults := (r.after acts).faults } := by
  induction acts using List.reverseRecOn with
  | nil => rfl
  | append_singleton acts act ih =>
    rw [after_concat, ih]
    cases act <;> rfl

/-- A new reader whose grammars give the shapes of sources. -/
def ofShapes (shapes : Grammar → List UInt8 → Shape) (settings : Settings) : SourceReader where
  parser grammar bytes := Node.ofShape bytes (shapes grammar bytes)
  settings := settings

/-- A reader that collects faults gives the outermost ones, up to the limit. -/
theorem read_of_exact {r : SourceReader} (hcollect : r.settings.collectFaults = true)
    {bytes : List UInt8} (hexact : (r.tree bytes).FlagsExact) :
    (r.read bytes).1.2
      = ((r.tree bytes).outermostFaults.take r.settings.maxFaults).map Node.toFault := by
  change r.faultsOf (r.tree bytes) = _
  rw [faultsOf, hcollect, Bool.true_and]
  split_ifs with hmark
  · exact Node.faults_eq hexact _
  · rw [hexact.outermostFaults_eq_nil (by simpa using hmark), List.take_nil, List.map_nil]

/-- With marks that are exact, reading a source reports the first of its outermost faults, up to the
limit and each with its line and column, whatever was read before. It reports none exactly if there
is none in the tree, a smaller limit gives the beginning of what a larger one gives, and the reader
keeps what it reported since it was last cleared. -/
theorem read_reports_outermost (shapes : Grammar → List UInt8 → Shape) (settings : Settings)
    (hcollect : settings.collectFaults = true) (acts : List Act) (bytes : List UInt8)
    (hexact : ((ofShapes shapes settings).tree bytes).FlagsExact) :
    (((ofShapes shapes settings).after acts).read bytes).1 =
      ((ofShapes shapes settings).tree bytes,
        (((ofShapes shapes settings).tree bytes).outermostFaults.take settings.maxFaults).map
          (Node.faultAt bytes)) ∧
    (0 < settings.maxFaults → ((((ofShapes shapes settings).after acts).read bytes).1.2 = [] ↔
      ∀ n, ((ofShapes shapes settings).tree bytes).Within n → n.isFault = false)) ∧
    (∀ limit, settings.maxFaults ≤ limit →
      (((ofShapes shapes settings).after acts).read bytes).1.2 <+:
        (((ofShapes shapes { settings with maxFaults := limit }).after acts).read bytes).1.2) ∧
    ((ofShapes shapes settings).after acts).faults =
      (sinceLastClear ((ofShapes shapes settings).replies acts)).flatten := by
  have hread : ∀ limit,
      (((ofShapes shapes { settings with maxFaults := limit }).after acts).read bytes).1.2
        = (((ofShapes shapes settings).tree bytes).outermostFaults.take limit).map
          (Node.faultAt bytes) := by
    intro limit
    rw [after_eq]
    refine (read_of_exact hcollect ?_).trans ?_
    · exact hexact
    · exact Node.map_toFault_outermostFaults bytes _ limit
  have hown := hread settings.maxFaults
  refine ⟨?_, fun hpos => ?_, fun limit hlimit => ?_, faults_after rfl acts⟩
  · refine Prod.ext ?_ hown
    rw [after_eq]
    rfl
  · rw [hown, List.map_eq_nil_iff, List.take_eq_nil_iff, Node.outermostFaults_eq_nil_iff]
    exact or_iff_right (Nat.ne_of_gt hpos)
  · rw [hown, hread limit, List.map_take, List.map_take]
    exact List.take_prefix_take_left hlimit

/-- A fault in another one, one that is missing and a last one. -/
def faultyShape : Shape :=
  .mk "program" true false true 0 12 "" [
    .mk "ERROR" true false true 2 6 "" [.mk "ERROR" true false true 3 4 "" []],
    .mk "name" true false false 6 7 "" [],
    .mk "echo_statement" true false true 7 9 "" [.mk ";" false true true 9 9 "" []],
    .mk "ERROR" true false true 10 12 "" []]

theorem faultyShape_flagsExact (source : List UInt8) :
    (Node.ofShape source faultyShape).FlagsExact := by
  have hleaf : ∀ n : Node, n.children = [] → n.hasError = n.isFault → n.FlagsExact := by
    intro n hn hmark
    refine Node.flagsExact_of_children (by simp [hn]) ?_
    rw [hn, hmark, List.any_nil, Bool.or_false]
  refine Node.flagsExact_of_children ?_ rfl
  refine List.forall_mem_cons.mpr ⟨?_, List.forall_mem_cons.mpr ⟨hleaf _ rfl rfl,
    List.forall_mem_cons.mpr ⟨?_, List.forall_mem_singleton.mpr (hleaf _ rfl rfl)⟩⟩⟩
  · exact Node.flagsExact_of_children (List.forall_mem_singleton.mpr (hleaf _ rfl rfl)) rfl
  · exact Node.flagsExact_of_children (List.forall_mem_singleton.mpr (hleaf _ rfl rfl)) rfl

/-- With a limit of two, the outer fault and the missing one are reported, each time again. -/
theorem read_reports_outermost_two :
    let r := ofShapes (fun _ _ => faultyShape) { maxFaults := 2 }
    let bytes : List UInt8 := [60, 63, 97, 98, 10, 99, 100, 101, 10, 102, 103, 104]
    (r.tree bytes).FlagsExact ∧
      ((r.after [.read bytes, .clear, .read bytes]).read bytes).1.2.map
      (fun f => (f.line, f.column))
        = [(1, 3), (3, 1)] := by
  intro r bytes
  have hexact : (r.tree bytes).FlagsExact := faultyShape_flagsExact bytes
  have hread := read_reports_outermost (fun _ _ => faultyShape) { maxFaults := 2 } rfl
    [.read bytes, .clear, .read bytes] bytes hexact
  refine ⟨hexact, ?_⟩
  rw [hread.1]
  decide

end SourceReader

end TypeFacts
