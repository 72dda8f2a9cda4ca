import Admission.Proofs.History
import Admission.Proofs.PreOrder
import Mathlib.Data.List.Perm.Basic

/-!
# What walks report

A walk is a loop over nodes that are still to come: a stack for one that goes depth first, a queue
for one that goes breadth first.  What it reports can be told without either.

* **distances** — `Tree.distance` is how far a node is below another one, and
  `Tree.preOrderWithin_eq` says that a pre-order down to a level holds the nodes of the pre-order
  that are no farther away;
* **generations** — `Tree.generation` lists the nodes at one distance from left to right: the
  children of those one level higher, one after the other.  `Tree.generation_eq` finds the same
  nodes, in the same order, in the pre-order, so all generations together hold just its nodes
  (`Tree.perm_generations`);
* **the queue** — `Tree.breadthFirst_append`: the nodes at the front of a queue are reported, and
  leave their children behind it.  Generation by generation this is the whole walk
  (`Tree.breadthFirst_generations`, `Tree.breadthFirst_start`);
* **the law** — `Tree.walks_report_all_within`, for every tree that operations can make.
-/

namespace Admission

namespace Tree

variable {V : Type} {t : Tree V} {top i c : Nat}

/-! ## Distances -/

/-- How far a node is below another one. -/
def distance (t : Tree V) (top i : Nat) : Nat := t.level i - t.level top

theorem level_of_parent (hwf : t.WellFormed) (hc : t.parent? c = some i) :
    t.level c = t.level i + 1 := by
  rw [level, hwf.ancestors_of_parent hc, List.length_cons, level]

theorem Under.level_le (hwf : t.WellFormed) (h : t.Under top i) : t.level top ≤ t.level i := by
  induction h with
  | refl => exact le_rfl
  | child _ hc ih => exact ih.trans (by rw [level_of_parent hwf hc]; exact Nat.le_succ _)

/-- A node is not farther from the root than it is from the front of the array. -/
theorem level_le (t : Tree V) (i : Nat) : t.level i ≤ i := by
  have hwithin : ∀ steps i, (t.ancestorsWithin steps i).length ≤ steps := by
    intro steps
    induction steps with
    | zero => exact fun _ => le_rfl
    | succ steps ih =>
      intro i
      rw [ancestorsWithin]
      split
      · exact Nat.zero_le _
      · exact Nat.succ_le_succ (ih _)
  exact hwithin i i

theorem distance_self (t : Tree V) (top : Nat) : t.distance top top = 0 := Nat.sub_self _

/-- From a node it is one step farther than from its child. -/
theorem distance_of_child (hwf : t.WellFormed) (hc : t.parent? c = some top) (h : t.Under c i) :
    t.distance top i = t.distance c i + 1 := by
  have hlevel := level_of_parent hwf hc
  have hle := h.level_le hwf
  rw [distance, distance]
  omega

/-- No distance is as large as the tree. -/
theorem distance_lt_size (hwf : t.WellFormed) (htop : top < t.size) (h : t.Under top i) :
    t.distance top i < t.size := by
  have hlevel := t.level_le i
  have hlt := h.lt_size hwf htop
  rw [distance]
  omega

/-- Of a pre-order, what is at certain distances: the node itself, if its own is one of them, and
then what is at these distances below it, one step closer to each child. -/
theorem filter_distance (hwf : t.WellFormed) (wanted : Nat → Bool) (top : Nat) :
    ((t.preOrder top).filter fun i => wanted (t.distance top i)) =
      (if wanted 0 then [top] else []) ++ (t.childrenOf top).flatMap fun c =>
        (t.preOrder c).filter fun i => wanted (t.distance c i + 1) := by
  have hbelow : ∀ c ∈ t.childrenOf top,
      ((t.preOrder c).filter fun i => wanted (t.distance top i)) =
        (t.preOrder c).filter fun i => wanted (t.distance c i + 1) := by
    intro c hc
    refine List.filter_congr fun i hi => ?_
    rw [distance_of_child hwf (hwf.mem_children.1 hc) ((mem_preOrder hwf).1 hi)]
  rw [preOrder_eq hwf, List.filter_cons, List.filter_flatMap, distance_self,
    List.flatMap_congr hbelow]
  split <;> rfl

/-- A pre-order down to a level holds the nodes that are no farther away. -/
theorem preOrderWithin_eq (hwf : t.WellFormed) (levels top : Nat) :
    t.preOrderWithin levels top = (t.preOrder top).filter (t.distance top · ≤ levels) := by
  induction levels generalizing top with
  | zero =>
    rw [filter_distance hwf (· ≤ 0)]
    simp [preOrderWithin]
  | succ levels ih =>
    rw [filter_distance hwf (· ≤ levels + 1), preOrderWithin]
    refine congrArg (top :: ·) (List.flatMap_congr fun c _ => ?_)
    simpa using ih c

/-! ## Generations -/

/-- The nodes at one distance below a node, from left to right: first the node itself, and then
always the children of those before. -/
def generation (t : Tree V) (top : Nat) : Nat → List Nat
  | 0 => [top]
  | distance + 1 => (t.generation top distance).flatMap t.childrenOf

/-- The generations below a node are those below its children, one after the other. -/
theorem generation_succ (t : Tree V) (distance top : Nat) :
    t.generation top (distance + 1) =
      (t.childrenOf top).flatMap fun c => t.generation c distance := by
  induction distance with
  | zero =>
    rw [generation, generation, List.flatMap_singleton]
    exact (List.flatMap_singleton' _).symm
  | succ distance ih =>
    rw [generation, ih, List.flatMap_assoc]
    rfl

/-- A generation is the part of the pre-order at its distance. -/
theorem generation_eq (hwf : t.WellFormed) (distance top : Nat) :
    t.generation top distance = (t.preOrder top).filter (t.distance top · = distance) := by
  induction distance generalizing top with
  | zero =>
    rw [filter_distance hwf (· = 0), generation]
    simp
  | succ distance ih =>
    rw [filter_distance hwf (· = distance + 1), generation_succ]
    refine List.flatMap_congr fun c _ => ?_
    simpa using ih c

/-- All generations down to one of them hold the nodes that are no farther away. -/
theorem perm_generations (hwf : t.WellFormed) (top levels : Nat) :
    ((List.range levels).flatMap (t.generation top)).Perm
      ((t.preOrder top).filter (t.distance top · < levels)) := by
  induction levels with
  | zero => simp
  | succ levels ih =>
    have hnear : ((t.preOrder top).filter (t.distance top · < levels + 1)).filter
        (t.distance top · < levels) = (t.preOrder top).filter (t.distance top · < levels) := by
      rw [List.filter_filter]
      refine List.filter_congr fun i _ => ?_
      rw [Bool.eq_iff_iff]
      simp only [Bool.and_eq_true, decide_eq_true_eq]
      omega
    have hlast : ((t.preOrder top).filter (t.distance top · < levels + 1)).filter
        (fun i => !decide (t.distance top i < levels)) = t.generation top levels := by
      rw [List.filter_filter, generation_eq hwf]
      refine List.filter_congr fun i _ => ?_
      rw [Bool.eq_iff_iff]
      simp only [Bool.and_eq_true, Bool.not_eq_true', decide_eq_true_eq, decide_eq_false_iff_not]
      omega
    rw [List.range_succ, List.flatMap_append, List.flatMap_singleton, ← hlast]
    refine (ih.append_right _).trans ?_
    rw [← hnear]
    exact List.filter_append_perm _ _

/-- There are fewer generations than nodes. -/
theorem generation_of_le (hwf : t.WellFormed) {distance : Nat} (htop : top < t.size)
    (h : t.size ≤ distance) : t.generation top distance = [] := by
  rw [generation_eq hwf, List.filter_eq_nil_iff]
  intro i hi
  have hlt := distance_lt_size hwf htop ((mem_preOrder hwf).1 hi)
  simpa using Nat.ne_of_lt (hlt.trans_le h)

/-! ## The queue -/

theorem breadthFirst_nil (t : Tree V) (keep : Nat → Bool) (maxDepth : Option Nat) (steps : Nat) :
    t.breadthFirst keep maxDepth steps [] = [] := by
  cases steps <;> rfl

/-- The nodes at the front of a queue are reported, and leave their children behind it. -/
theorem breadthFirst_append (t : Tree V) (keep : Nat → Bool) (maxDepth : Option Nat) (steps : Nat)
    (front back : List (Nat × Nat)) :
    t.breadthFirst keep maxDepth (front.length + steps) (front ++ back) =
      (front.map Prod.fst).filter keep ++ t.breadthFirst keep maxDepth steps
        (back ++ front.flatMap fun n => t.nextDown maxDepth n.1 n.2) := by
  induction front generalizing back with
  | nil => simp
  | cons n front ih =>
    have hsteps : (n :: front).length + steps = (front.length + steps) + 1 := by
      rw [List.length_cons]
      omega
    rw [hsteps, List.cons_append, breadthFirst, List.append_assoc, ih, List.map_cons,
      List.filter_cons, List.flatMap_cons, List.append_assoc]
    split <;> rfl

/-- A generation is reported, and leaves the next one in the queue, if the walk may go that deep. -/
theorem breadthFirst_generation (t : Tree V) (keep : Nat → Bool) (maxDepth : Option Nat)
    (steps top distance : Nat) :
    t.breadthFirst keep maxDepth ((t.generation top distance).length + steps)
        ((t.generation top distance).map (·, distance)) =
      (t.generation top distance).filter keep ++ t.breadthFirst keep maxDepth steps
        ((t.generation top distance).flatMap (t.nextDown maxDepth · distance)) := by
  have hround := t.breadthFirst_append keep maxDepth steps
    ((t.generation top distance).map (·, distance)) []
  rw [List.length_map, List.append_nil, List.map_map, List.nil_append, List.flatMap_map] at hround
  rw [hround]
  congr 2
  exact List.map_id _

/-- From one generation on a walk reports it and the next ones, up to one that leaves nothing in
the queue. -/
theorem breadthFirst_generations (t : Tree V) (keep : Nat → Bool) (maxDepth : Option Nat)
    (top : Nat) :
    ∀ (further distance steps : Nat),
      (∀ k < further, maxDepth.all (distance + k < ·) = true) →
      (∀ i ∈ t.generation top (distance + further),
        t.nextDown maxDepth i (distance + further) = []) →
      ((List.range' distance (further + 1)).flatMap (t.generation top)).length ≤ steps →
        t.breadthFirst keep maxDepth steps ((t.generation top distance).map (·, distance)) =
          ((List.range' distance (further + 1)).flatMap (t.generation top)).filter keep := by
  intro further
  induction further with
  | zero =>
    intro distance steps _ hend hle
    have hall : (List.range' distance 1).flatMap (t.generation top) = t.generation top distance :=
      List.flatMap_singleton _ _
    rw [hall] at hle ⊢
    obtain ⟨rest, rfl⟩ := Nat.exists_eq_add_of_le hle
    have hempty : (t.generation top distance).flatMap (t.nextDown maxDepth · distance) = [] :=
      List.flatMap_eq_nil_iff.2 hend
    rw [breadthFirst_generation, hempty, breadthFirst_nil, List.append_nil]
  | succ further ih =>
    intro distance steps hgoes hend hle
    have hall : (List.range' distance (further + 1 + 1)).flatMap (t.generation top) =
        t.generation top distance ++
          (List.range' (distance + 1) (further + 1)).flatMap (t.generation top) := by
      rw [List.range'_succ, List.flatMap_cons]
    rw [hall, List.length_append] at hle
    obtain ⟨rest, rfl⟩ := Nat.exists_eq_add_of_le (Nat.le_of_add_right_le hle)
    have hnext : (t.generation top distance).flatMap (t.nextDown maxDepth · distance) =
        (t.generation top (distance + 1)).map (·, distance + 1) := by
      rw [generation, List.map_flatMap]
      exact List.flatMap_congr fun i _ => nextDown_of_all (hgoes 0 (Nat.succ_pos _)) i
    have hplus : ∀ k, distance + 1 + k = distance + (k + 1) := fun k => by omega
    have hrest := ih (distance + 1) rest
      (fun k hk => by rw [hplus]; exact hgoes (k + 1) (Nat.succ_lt_succ hk))
      (by rw [hplus]; exact hend) (by omega)
    rw [breadthFirst_generation, hnext, hrest, hall, List.filter_append]

/-- How many generations a walk may go through: those down to its depth, or as many as there can
be. -/
def generationsWithin (t : Tree V) : Option Nat → Nat
  | none => t.size
  | some d => d + 1

/-- The generations that a walk may go through are what it has before it at its start. -/
theorem perm_generationsWithin (hwf : t.WellFormed) {start : Nat} (hstart : start < t.size)
    (maxDepth : Option Nat) :
    ((List.range (t.generationsWithin maxDepth)).flatMap (t.generation start)).Perm
      (t.ahead maxDepth (start, 0)) := by
  refine (perm_generations hwf start _).trans (List.Perm.of_eq ?_)
  cases maxDepth with
  | none =>
    refine List.filter_eq_self.2 fun i hi => decide_eq_true ?_
    exact distance_lt_size hwf hstart ((mem_preOrder hwf).1 hi)
  | some d =>
    rw [ahead, preOrderWithin_eq hwf]
    exact List.filter_congr fun i _ => decide_eq_decide.2 Nat.lt_succ_iff

/-- As many steps as there are nodes bring a walk to its end, and more make no difference. -/
theorem breadthFirst_start (hwf : t.WellFormed) {start : Nat} (hstart : start < t.size)
    (keep : Nat → Bool) (maxDepth : Option Nat) {steps : Nat} (hsteps : t.size ≤ steps) :
    t.breadthFirst keep maxDepth steps [(start, 0)] =
      ((List.range (t.generationsWithin maxDepth)).flatMap (t.generation start)).filter keep := by
  have hlength := (perm_generationsWithin hwf hstart maxDepth).length_eq.le.trans
    ((length_ahead_start_le hwf hstart maxDepth).trans hsteps)
  rw [List.range_eq_range'] at hlength ⊢
  cases maxDepth with
  | none =>
    -- below the last generation nothing is left to put in
    obtain ⟨further, hfurther⟩ := Nat.exists_eq_add_one.2 hwf.nonempty
    rw [generationsWithin, hfurther] at hlength ⊢
    refine t.breadthFirst_generations keep none start further 0 steps (fun _ _ => rfl) ?_ hlength
    have hlast : t.generation start (further + 1) = [] :=
      generation_of_le hwf hstart hfurther.le
    intro i hi
    rw [Nat.zero_add] at hi
    rw [nextDown_of_all rfl, List.flatMap_eq_nil_iff.1 hlast i hi]
    rfl
  | some d =>
    refine t.breadthFirst_generations keep (some d) start d 0 steps ?_ ?_ hlength
    · exact fun k hk => decide_eq_true (by omega)
    · exact fun i _ => nextDown_of_le (by omega) i

/-! ## The law -/

/-- What a walk has before it at its start are the nodes of the pre-order within its depth. -/
theorem ahead_start (hwf : t.WellFormed) (maxDepth : Option Nat) (start : Nat) :
    t.ahead maxDepth (start, 0) =
      (t.preOrder start).filter fun i => maxDepth.all (t.distance start i ≤ ·) := by
  cases maxDepth with
  | none => exact (List.filter_true _).symm
  | some d => exact preOrderWithin_eq hwf d start

/-- **Walks report all that is within their depth, once and in order.**  Take any tree that
operations have made, a node of it to start from, a filter, and a limit of depth or none.  A
pre-order is a node and then the pre-orders of its children, in the order in which these were added.
A depth-first walk reports the nodes of the pre-order that are within its depth and pass the filter,
in this order.  A breadth-first walk reports those that pass of the generations within its depth,
one generation after the other and each from left to right.  So both report the same nodes, none
twice: those at or below the start, within the depth, that pass, whatever becomes of the nodes
above them.  Both are at their end after as many steps as the tree has nodes.  From the root, with
neither filter nor limit, both report every node of the tree once. -/
theorem walks_report_all_within {V : Type} (t : Tree V) (h : t.Made) (start : Nat)
    (hstart : start < t.size) (keep : Nat → Bool) (maxDepth : Option Nat) :
    (∀ i, t.preOrder i = i :: (t.childrenOf i).flatMap t.preOrder) ∧
      t.walkDepthFirst start keep maxDepth =
        (t.preOrder start).filter (fun i => maxDepth.all (t.distance start i ≤ ·) && keep i) ∧
      t.walkBreadthFirst start keep maxDepth =
        ((List.range (t.generationsWithin maxDepth)).flatMap (t.generation start)).filter keep ∧
      (t.walkBreadthFirst start keep maxDepth).Perm (t.walkDepthFirst start keep maxDepth) ∧
      (t.walkDepthFirst start keep maxDepth).Nodup ∧
      (∀ i, i ∈ t.walkDepthFirst start keep maxDepth ↔
        t.Under start i ∧ maxDepth.all (t.distance start i ≤ ·) = true ∧ keep i = true) ∧
      (∀ steps, t.size ≤ steps →
        t.depthFirst keep maxDepth steps [(start, 0)] = t.walkDepthFirst start keep maxDepth ∧
          t.breadthFirst keep maxDepth steps [(start, 0)] =
            t.walkBreadthFirst start keep maxDepth) ∧
      (t.walkDepthFirst 0 (fun _ => true) none).Perm (List.range t.size) ∧
      (t.walkBreadthFirst 0 (fun _ => true) none).Perm (List.range t.size) := by
  have hwf := h.wellFormed
  have hdepth : ∀ steps, t.size ≤ steps → t.depthFirst keep maxDepth steps [(start, 0)] =
      (t.preOrder start).filter fun i => maxDepth.all (t.distance start i ≤ ·) && keep i := by
    intro steps hsteps
    rw [depthFirst_start hwf hstart keep maxDepth hsteps, ahead_start hwf, List.filter_filter]
    exact List.filter_congr fun i _ => Bool.and_comm ..
  have hbreadth : ∀ steps, t.size ≤ steps → t.breadthFirst keep maxDepth steps [(start, 0)] =
      ((List.range (t.generationsWithin maxDepth)).flatMap (t.generation start)).filter keep :=
    fun _ hsteps => breadthFirst_start hwf hstart keep maxDepth hsteps
  have hsame : ∀ {start : Nat} (_ : start < t.size) (keep : Nat → Bool) (maxDepth : Option Nat),
      (t.walkBreadthFirst start keep maxDepth).Perm (t.walkDepthFirst start keep maxDepth) := by
    intro start hstart keep maxDepth
    rw [walkBreadthFirst, breadthFirst_start hwf hstart keep maxDepth le_rfl, walkDepthFirst,
      depthFirst_start hwf hstart keep maxDepth le_rfl]
    exact (perm_generationsWithin hwf hstart maxDepth).filter keep
  have hroot : (t.walkDepthFirst 0 (fun _ => true) none).Perm (List.range t.size) := by
    rw [walkDepthFirst_eq hwf hwf.nonempty, List.filter_true]
    exact perm_preOrder_root hwf
  refine ⟨preOrder_eq hwf, hdepth _ le_rfl, hbreadth _ le_rfl, hsame hstart keep maxDepth, ?_, ?_,
    ?_, hroot, (hsame hwf.nonempty _ _).trans hroot⟩
  · rw [walkDepthFirst, hdepth _ le_rfl]
    exact (nodup_preOrder hwf start).filter _
  · intro i
    rw [walkDepthFirst, hdepth _ le_rfl, List.mem_filter, mem_preOrder hwf, Bool.and_eq_true]
  · intro steps hsteps
    exact ⟨(hdepth _ hsteps).trans (hdepth _ le_rfl).symm,
      (hbreadth _ hsteps).trans (hbreadth _ le_rfl).symm⟩

/-- A garden with two beds.  The last plant goes into the first of them. -/
def garden : Tree Nat :=
  (((((Tree.new 0 "garden" none).append 0 "roses" (some 7)).append 0 "lilies" (some 5)).append 1
    "red" (some 7)).append 2 "white" (some 7)).append 1 "white" (some 5)

theorem made_garden : garden.Made := by
  have hroses : ((Tree.new 0 "garden" none).append 0 "roses" (some 7)).Made :=
    (Made.new 0 "garden" none).addChild (show Tree.addChild _ ⟨0, 0⟩ "roses" (some 7) = _ from rfl)
  have hlilies := hroses.addChild (show Tree.addChild _ ⟨0, 0⟩ "lilies" (some 5) = _ from rfl)
  have hred := hlilies.addChild (show Tree.addChild _ ⟨0, 1⟩ "red" (some 7) = _ from rfl)
  have hwhite := hred.addChild (show Tree.addChild _ ⟨0, 2⟩ "white" (some 7) = _ from rfl)
  exact hwhite.addChild (show Tree.addChild _ ⟨0, 1⟩ "white" (some 5) = _ from rfl)

/-- With the roses left out, their plants are reported all the same. -/
theorem walks_report_all_within_garden :
    garden.Made ∧ 0 < garden.size ∧
      garden.walkDepthFirst 0 (· != 1) (some 2) = [0, 3, 5, 2, 4] ∧
      garden.walkBreadthFirst 0 (· != 1) (some 2) = [0, 2, 3, 5, 4] ∧
      garden.walkBreadthFirst 0 (· != 1) (some 1) = [0, 2] := by
  obtain ⟨-, hdepth, hbreadth, -⟩ :=
    walks_report_all_within garden made_garden 0 (by decide) (· != 1) (some 2)
  obtain ⟨-, -, hshallow, -⟩ :=
    walks_report_all_within garden made_garden 0 (by decide) (· != 1) (some 1)
  exact ⟨made_garden, by decide, hdepth.trans (by decide), hbreadth.trans (by decide),
    hshallow.trans (by decide)⟩

end Tree

end Admission
