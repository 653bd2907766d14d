import Mathlib.Data.List.Nodup
import Mathlib.Logic.Relation
import PlatformGuard.Callable.Search

/-!
# The order of a depth-first search

A search over a graph whose successors are all among its nodes. The bound on the depth is never
met: it is as large as the number of nodes not met yet (`unmet_cons_lt`), and a search from a node
that was met does nothing.

The invariant of a search is in `Extends`. Its heart is `ordered`: when a node has ended, all
successors of what ended by then have ended too, or were met before, or can still reach the
node. What ended up to a node is thus closed, but for what reaches the node itself
(`mem_of_reaches`). That the components come in an order that follows the edges
(`components_before`) needs nothing more.

* `finishOrder_nodup`, `mem_finishOrder`: each node ends once.
* `reaches_iff`: to be found by a search from a node is to be reached from it.
* `components_flatten_nodup`, `mem_components_flatten`: each node is in one component, once.
* `components_before`, `components_pairwise`: a component comes after those with an edge to it.
-/

namespace PlatformGuard.Search

open Relation

variable {α : Type}

def Edge (successors : α → List α) (a b : α) : Prop := b ∈ successors a

def Reaches (successors : α → List α) : α → α → Prop := ReflTransGen (Edge successors)

/-- All edges stay within the nodes. -/
def Closed (successors : α → List α) (nodes : List α) : Prop :=
    ∀ a ∈ nodes, ∀ b ∈ successors a, b ∈ nodes

theorem Reaches.mem {successors : α → List α} {nodes : List α} {a b : α}
    (h : Reaches successors a b) (closed : Closed successors nodes) (ha : a ∈ nodes) :
    b ∈ nodes := by
  induction h with
  | refl => exact ha
  | tail _ edge ih => exact closed _ ih _ edge

theorem append_split {first second before after : List α} {node : α}
    (h : first ++ second = before ++ node :: after) :
    (∃ rest, first = before ++ node :: rest) ∨ ∃ before',
    before = first ++ before' ∧ second = before' ++ node :: after := by
  rcases List.append_eq_append_iff.1 h with ⟨before', hbefore, hsecond⟩ | ⟨rest, hfirst, hrest⟩
  · exact .inr ⟨before', hbefore, hsecond⟩
  · cases rest with
    | nil => exact .inr ⟨[], by rw [hfirst, List.append_nil, List.append_nil], hrest.symm⟩
    | cons x rest =>
      rw [List.cons_append, List.cons.injEq] at hrest
      exact .inl ⟨rest, by rw [hfirst, hrest.1]⟩

theorem exists_last {p : α → Prop} {l : List α} {a : α} (ha : a ∈ l) (h : p a) :
    ∃ before last after, l = before ++ last :: after ∧ p last ∧ ∀ b ∈ after, ¬ p b := by
  induction l generalizing a with
  | nil => exact absurd ha List.not_mem_nil
  | cons first rest ih =>
    by_cases more : ∃ b ∈ rest, p b
    · obtain ⟨b, hb, hpb⟩ := more
      obtain ⟨before, last, after, rfl, found⟩ := ih hb hpb
      exact ⟨first :: before, last, after, rfl, found⟩
    · rcases List.mem_cons.1 ha with rfl | ha
      · exact ⟨[], a, rest, rfl, h, fun b hb hpb => more ⟨b, hb, hpb⟩⟩
      · exact absurd ⟨a, ha, h⟩ more

theorem pairwise_of_splits {R : α → α → Prop} {l : List α}
    (h : ∀ earlier a later, l = earlier ++ a :: later → ∀ b ∈ later, R a b) : l.Pairwise R := by
  induction l with
  | nil => exact .nil
  | cons a rest ih =>
    refine List.pairwise_cons.2 ⟨h [] a rest rfl, ih fun earlier b later split => ?_⟩
    exact h (a :: earlier) b later (congrArg (a :: ·) split)

/-! ## What a search adds -/

/-- A search went on from one state to another, and the given nodes ended on the way. -/
structure Extends (successors : α → List α) (p q : Progress α) (ended : List α) : Prop where
  finished : q.finished = p.finished ++ ended
  met : ∀ a, a ∈ q.met ↔ a ∈ p.met ∨ a ∈ ended
  fresh : ∀ a ∈ ended, a ∉ p.met
  nodup : ended.Nodup
  closed : ∀ a ∈ ended, ∀ b ∈ successors a, b ∈ q.met
  /-- What can be next after the nodes that ended by the end of one of them. -/
  ordered : ∀ before node after, ended = before ++ node :: after → ∀ a ∈ before ++ [node],
    ∀ b ∈ successors a,
    b ∈ p.met ∨ b ∈ before ++ [node] ∨ Reaches successors b node

namespace Extends

variable {successors : α → List α} {p q r : Progress α} {ended ended' : List α}

theorem refl : Extends successors p p [] where
  finished := (List.append_nil _).symm
  met := by simp
  fresh := by simp
  nodup := List.nodup_nil
  closed := by simp
  ordered := by simp

theorem met_subset (h : Extends successors p q ended) {a : α} (ha : a ∈ p.met) : a ∈ q.met :=
  (h.met a).2 (.inl ha)

theorem trans (h : Extends successors p q ended) (h' : Extends successors q r ended') :
    Extends successors p r (ended ++ ended') where
  finished := by rw [h'.finished, h.finished, List.append_assoc]
  met := by
    intro a
    rw [h'.met, h.met, List.mem_append, or_assoc]
  fresh := by
    intro a ha
    rcases List.mem_append.1 ha with ha | ha
    · exact h.fresh a ha
    · exact fun hp => h'.fresh a ha (h.met_subset hp)
  nodup := by
    refine List.nodup_append.2 ⟨h.nodup, h'.nodup, fun a ha b hb => ?_⟩
    rintro rfl
    exact h'.fresh a hb ((h.met a).2 (.inr ha))
  closed := by
    intro a ha b hb
    rcases List.mem_append.1 ha with ha | ha
    · exact h'.met_subset (h.closed a ha b hb)
    · exact h'.closed a ha b hb
  ordered := by
    intro before node after split a ha b hb
    rcases append_split split with ⟨rest, rfl⟩ | ⟨before', rfl, split'⟩
    · exact h.ordered before node rest rfl a ha b hb
    · -- the node ended in the second search: what the first one met counts as before it
      have inner : b ∈ q.met ∨ b ∈ before' ++ [node] ∨ Reaches successors b node := by
        rw [List.append_assoc] at ha
        rcases List.mem_append.1 ha with ha | ha
        · exact .inl (h.closed a ha b hb)
        · exact h'.ordered before' node after split' a ha b hb
      rw [List.append_assoc, List.mem_append]
      rcases inner with hmet | hlist | hreach
      · rcases (h.met b).1 hmet with hmet | hended
        · exact .inl hmet
        · exact .inr (.inl (.inl hended))
      · exact .inr (.inl (.inr hlist))
      · exact .inr (.inr hreach)

/-- The node from which a search started ends last. -/
theorem finish {node : α} (h : Extends successors { p with met := node :: p.met } q ended)
    (hnode : node ∉ p.met) (children : ∀ b ∈ successors node, b ∈ q.met)
    (reached : ∀ a ∈ ended, Reaches successors node a) :
    Extends successors p { q with finished := q.finished ++ [node] } (ended ++ [node]) where
  finished := by
    show q.finished ++ [node] = _
    rw [h.finished, List.append_assoc]
  met := by
    intro a
    show a ∈ q.met ↔ _
    rw [h.met, List.mem_cons, List.mem_append, List.mem_singleton]
    tauto
  fresh := by
    intro a ha
    rcases List.mem_append.1 ha with ha | ha
    · exact fun hp => h.fresh a ha (List.mem_cons_of_mem _ hp)
    · rw [List.mem_singleton.1 ha]
      exact hnode
  nodup := by
    refine List.nodup_append.2 ⟨h.nodup, List.pairwise_singleton _ node, fun a ha b hb => ?_⟩
    rintro rfl
    exact h.fresh a ha (List.mem_singleton.1 hb ▸ List.mem_cons_self)
  closed := by
    intro a ha
    rcases List.mem_append.1 ha with ha | ha
    · exact h.closed a ha
    · rw [List.mem_singleton.1 ha]
      exact children
  ordered := by
    intro before last after split a ha b hb
    rcases append_split split with ⟨rest, rfl⟩ | ⟨before', rfl, split'⟩
    · rcases h.ordered before last rest rfl a ha b hb with hmet | hlist | hreach
      · rcases List.mem_cons.1 hmet with rfl | hmet
        · exact .inr (.inr (reached last (List.mem_append_right _ List.mem_cons_self)))
        · exact .inl hmet
      · exact .inr (.inl hlist)
      · exact .inr (.inr hreach)
    · -- everything has ended by the end of the node, so nothing but what was met before is open
      obtain ⟨rfl, rfl⟩ : before' = [] ∧ last = node := by
        cases before' with
        | nil => exact ⟨rfl, (List.cons.inj split').1.symm⟩
        | cons _ _ => simp at split'
      rw [List.append_nil] at ha ⊢
      have hmet : b ∈ q.met := by
        rcases List.mem_append.1 ha with ha | ha
        · exact h.closed a ha b hb
        · rw [List.mem_singleton.1 ha] at hb
          exact children b hb
      rcases (h.met b).1 hmet with hmet | hended
      · rcases List.mem_cons.1 hmet with rfl | hmet
        · exact .inr (.inl (List.mem_append_right _ (List.mem_singleton_self b)))
        · exact .inl hmet
      · exact .inr (.inl (List.mem_append_left _ hended))

end Extends

/-! ## Searches -/

variable [DecidableEq α]

/-- How many of the nodes were not met yet. -/
def unmet (nodes met : List α) : Nat := nodes.countP fun a => a ∉ met

theorem unmet_cons_lt {nodes met : List α} {a : α} (ha : a ∈ nodes) (hmet : a ∉ met) :
    unmet nodes (a :: met) < unmet nodes met := by
  have split : unmet nodes met = nodes.countP (fun b => b ∉ met ∧ b = a) +
      unmet nodes (a :: met) := by
    unfold unmet
    rw [List.countP_eq_countP_filter_add nodes _ (fun b => decide (b = a)), List.countP_filter,
      List.countP_filter]
    congr 1
    · refine List.countP_congr fun b _ => ?_
      simp
    · refine List.countP_congr fun b _ => ?_
      simp [and_comm]
  have found : 0 < nodes.countP fun b => b ∉ met ∧ b = a :=
    List.countP_pos_iff.2 ⟨a, ha, by simp [hmet]⟩
  omega

theorem unmet_le_of_subset {nodes met met' : List α} (h : ∀ a ∈ met, a ∈ met') :
    unmet nodes met' ≤ unmet nodes met := by
  refine List.countP_mono_left fun a _ ha => ?_
  rw [decide_eq_true_eq] at ha ⊢
  exact fun hmet => ha (h a hmet)

/-- What a search from several nodes, one after the other, comes to: each of them was met, and what
ended can be reached from one of them. -/
def Explored (successors : α → List α) (starts : List α) (p q : Progress α) : Prop :=
  ∃ ended, Extends successors p q ended ∧ (∀ a ∈ starts, a ∈ q.met) ∧
    ∀ a ∈ ended, ∃ start ∈ starts, Reaches successors start a

variable {successors : α → List α} {nodes : List α}

/-- Searches one after the other, given what each of them does where the depth is enough. -/
theorem foldl_explored {depth : Nat}
    (step : ∀ p : Progress α, ∀ node ∈ nodes, unmet nodes p.met ≤ depth →
      Explored successors [node] p (explore successors depth p node))
    {starts : List α} (hstarts : ∀ a ∈ starts, a ∈ nodes) {p : Progress α}
    (hdepth : unmet nodes p.met ≤ depth) :
    Explored successors starts p (starts.foldl (explore successors depth) p) := by
  induction starts generalizing p with
  | nil => exact ⟨[], .refl, by simp, by simp⟩
  | cons first rest ih =>
    obtain ⟨ended, hfirst, hmet, hreach⟩ := step p first (hstarts first List.mem_cons_self) hdepth
    have hdepth' : unmet nodes (explore successors depth p first).met ≤ depth :=
      Nat.le_trans (unmet_le_of_subset fun _ => hfirst.met_subset) hdepth
    obtain ⟨ended', hrest, hmet', hreach'⟩ :=
      ih (fun a ha => hstarts a (List.mem_cons_of_mem _ ha)) hdepth'
    refine ⟨ended ++ ended', hfirst.trans hrest, fun a ha => ?_, fun a ha => ?_⟩
    · rcases List.mem_cons.1 ha with rfl | ha
      · exact hrest.met_subset (hmet a (List.mem_singleton_self a))
      · exact hmet' a ha
    · rcases List.mem_append.1 ha with ha | ha
      · obtain ⟨start, hstart, h⟩ := hreach a ha
        exact ⟨start, List.mem_cons.2 (.inl (List.mem_singleton.1 hstart)), h⟩
      · obtain ⟨start, hstart, h⟩ := hreach' a ha
        exact ⟨start, List.mem_cons_of_mem _ hstart, h⟩

/-- A search with enough depth for the nodes not met. -/
theorem explore_explored (closed : Closed successors nodes) (depth : Nat) :
    ∀ p : Progress α, ∀ node ∈ nodes, unmet nodes p.met ≤ depth →
      Explored successors [node] p (explore successors depth p node) := by
  have stay : ∀ (p : Progress α) (node : α), node ∈ p.met → Explored successors [node] p p := by
    intro p node hmet
    exact ⟨[], .refl, fun a ha => List.mem_singleton.1 ha ▸ hmet, by simp⟩
  induction depth with
  | zero =>
    intro p node hnode hdepth
    -- with no depth left there is no node left to meet
    have hmet : node ∈ p.met := by
      by_contra hmet
      have := unmet_cons_lt hnode hmet
      omega
    exact stay p node hmet
  | succ depth ih =>
    intro p node hnode hdepth
    rw [explore]
    split
    case isTrue hmet => exact stay p node hmet
    case isFalse hmet =>
      have hlt := unmet_cons_lt hnode hmet
      obtain ⟨ended, hinner, hchildren, hreach⟩ := foldl_explored ih (closed node hnode)
        (show unmet nodes ({ p with met := node :: p.met } : Progress α).met ≤ depth by
          show unmet nodes (node :: p.met) ≤ depth
          omega)
      have reached : ∀ a ∈ ended, Reaches successors node a := by
        intro a ha
        obtain ⟨child, hchild, h⟩ := hreach a ha
        exact ReflTransGen.head hchild h
      refine ⟨ended ++ [node], hinner.finish hmet hchildren reached, fun a ha => ?_, fun a ha => ?_⟩
      · rw [List.mem_singleton.1 ha]
        exact hinner.met_subset List.mem_cons_self
      · refine ⟨node, List.mem_singleton_self node, ?_⟩
        rcases List.mem_append.1 ha with ha | ha
        · exact reached a ha
        · rw [List.mem_singleton.1 ha]
          exact ReflTransGen.refl

/-- A search from the start, from several nodes. -/
theorem foldl_extends (closed : Closed successors nodes) {starts : List α}
    (hstarts : ∀ a ∈ starts, a ∈ nodes) :
    let q := starts.foldl (explore successors nodes.length) {}
    Extends successors {} q q.finished ∧ (∀ a ∈ starts, a ∈ q.finished) ∧
      ∀ a ∈ q.finished, ∃ start ∈ starts, Reaches successors start a := by
  intro q
  have hdepth : unmet nodes ({} : Progress α).met ≤ nodes.length := List.countP_le_length
  obtain ⟨ended, h, hmet, hreach⟩ :=
    foldl_explored (explore_explored closed nodes.length) hstarts hdepth
  have hended : q.finished = ended := h.finished
  rw [hended]
  refine ⟨h, fun a ha => ?_, hreach⟩
  rcases (h.met a).1 (hmet a ha) with hnone | ha
  · exact absurd hnone List.not_mem_nil
  · exact ha

theorem finishOrder_nodup (closed : Closed successors nodes) :
    (finishOrder successors nodes).Nodup :=
  (foldl_extends closed fun _ => id).1.nodup

theorem mem_finishOrder (closed : Closed successors nodes) {a : α} :
    a ∈ finishOrder successors nodes ↔ a ∈ nodes := by
  obtain ⟨-, hall, hreach⟩ := foldl_extends closed fun _ => id
  constructor
  · intro ha
    obtain ⟨start, hstart, h⟩ := hreach a ha
    exact h.mem closed hstart
  · exact hall a

/-- To be found by a search from a node is to be reached from it. -/
theorem reaches_iff (closed : Closed successors nodes) {a b : α} (ha : a ∈ nodes) :
    reaches successors nodes a b = true ↔ Reaches successors a b := by
  have only : ∀ x ∈ [a], x ∈ nodes := fun _ hx => List.mem_singleton.1 hx ▸ ha
  obtain ⟨h, hstart, hreach⟩ := foldl_extends closed only
  rw [reaches, List.contains_iff_mem]
  constructor
  · intro hb
    obtain ⟨start, hstart, hpath⟩ := hreach b hb
    rw [List.mem_singleton.1 hstart] at hpath
    exact hpath
  · intro hpath
    induction hpath with
    | refl => exact hstart a (List.mem_singleton_self a)
    | tail _ edge ih =>
      rcases (h.met _).1 (h.closed _ ih _ edge) with hnone | hended
      · exact absurd hnone List.not_mem_nil
      · exact hended

theorem mem_of_edge (closed : Closed successors nodes) {before after : List α} {node a b : α}
    (split : finishOrder successors nodes = before ++ node :: after) (ha : a ∈ before ++ [node])
    (edge : b ∈ successors a) : b ∈ before ++ [node] ∨ Reaches successors b node := by
  have ordered := (foldl_extends closed fun _ => id).1.ordered before node after split
  exact (ordered a ha b edge).resolve_left List.not_mem_nil

/-- What ended up to a node is closed, but for what reaches the node. -/
theorem mem_of_reaches (closed : Closed successors nodes) {before after : List α} {node a b : α}
    (split : finishOrder successors nodes = before ++ node :: after) (ha : a ∈ before ++ [node])
    (h : Reaches successors a b) : b ∈ before ++ [node] ∨ Reaches successors a node := by
  induction h with
  | refl => exact .inl ha
  | tail path edge ih =>
    rcases ih with hmem | hreach
    · rcases mem_of_edge closed split hmem edge with hmem | hreach
      · exact .inl hmem
      · exact .inr ((path.tail edge).trans hreach)
    · exact .inr hreach

/-! ## Components -/

theorem linked_iff (closed : Closed successors nodes) {a b : α} (ha : a ∈ nodes) (hb : b ∈ nodes) :
    linked successors nodes a b = true ↔ Reaches successors a b ∧ Reaches successors b a := by
  rw [linked, Bool.and_eq_true, reaches_iff closed ha, reaches_iff closed hb]

/-- The classes of some nodes, the last node first, without those that were there already. -/
def gather (classOf : α → List α) (nodes : List α) : List (List α) :=
  nodes.foldr (fun node found =>
    if found.any (·.contains node) then found else found ++ [classOf node]) []

section Gather

variable {classOf : α → List α}

theorem gather_cons (node : α) (rest : List α) :
    (gather classOf (node :: rest) = gather classOf rest ∧ ∃ c ∈ gather classOf rest, node ∈ c) ∨
      (gather classOf (node :: rest) = gather classOf rest ++ [classOf node] ∧
        ∀ c ∈ gather classOf rest, node ∉ c) := by
  have unfolded : gather classOf (node :: rest) =
    if (gather classOf rest).any (·.contains node) then gather classOf rest
      else gather classOf rest ++ [classOf node] := rfl
  rw [unfolded]
  split
  case isTrue h =>
    obtain ⟨c, hc, hnode⟩ := List.any_eq_true.1 h
    exact .inl ⟨rfl, c, hc, List.contains_iff_mem.1 hnode⟩
  case isFalse h =>
    refine .inr ⟨rfl, fun c hc hnode => h ?_⟩
    exact List.any_eq_true.2 ⟨c, hc, List.contains_iff_mem.2 hnode⟩

/-- Every node is in a class. -/
theorem exists_mem_gather (self : ∀ a ∈ nodes, a ∈ classOf a) :
    ∀ a ∈ nodes, ∃ c ∈ gather classOf nodes, a ∈ c := by
  induction nodes with
  | nil => simp
  | cons node rest ih =>
    have inRest := ih fun a ha => self a (List.mem_cons_of_mem _ ha)
    rcases gather_cons node rest with ⟨same, found⟩ | ⟨grown, -⟩
    · rw [same]
      intro a ha
      rcases List.mem_cons.1 ha with rfl | ha
      · exact found
      · exact inRest a ha
    · rw [grown]
      intro a ha
      rcases List.mem_cons.1 ha with rfl | ha
      · exact ⟨classOf a, List.mem_append_right _ (List.mem_singleton_self _),
          self a List.mem_cons_self⟩
      · obtain ⟨c, hc, hac⟩ := inRest a ha
        exact ⟨c, List.mem_append_left _ hc, hac⟩

/-- Each class is that of one of the nodes. What comes after this node is in the classes before. -/
theorem gather_split (self : ∀ a ∈ nodes, a ∈ classOf a)
    {earlier later : List (List α)} {c : List α}
    (h : gather classOf nodes = earlier ++ c :: later) :
    ∃ before node after, nodes = before ++ node :: after ∧ c = classOf node ∧
      (∀ c' ∈ earlier, node ∉ c') ∧ ∀ a ∈ after, ∃ c' ∈ earlier, a ∈ c' := by
  induction nodes generalizing later with
  | nil => exact absurd h (by simp [gather])
  | cons node rest ih =>
    have selfRest : ∀ a ∈ rest, a ∈ classOf a := fun a ha => self a (List.mem_cons_of_mem _ ha)
    have inRest : ∀ later', gather classOf rest = earlier ++ c :: later' →
        ∃ before node' after, node :: rest = before ++ node' :: after ∧ c = classOf node' ∧
          (∀ c' ∈ earlier, node' ∉ c') ∧ ∀ a ∈ after, ∃ c' ∈ earlier, a ∈ c' := by
      intro later' h'
      obtain ⟨before, node', after, rfl, found⟩ := ih selfRest h'
      exact ⟨node :: before, node', after, rfl, found⟩
    rcases gather_cons node rest with ⟨same, -⟩ | ⟨grown, fresh⟩
    · exact inRest later (same ▸ h)
    · rw [grown] at h
      rcases append_split h with ⟨later', h'⟩ | ⟨earlier', rfl, hlast⟩
      · exact inRest later' h'
      · obtain ⟨rfl, rfl⟩ : earlier' = [] ∧ classOf node = c := by
          cases earlier' with
          | nil => exact ⟨rfl, (List.cons.inj hlast).1⟩
          | cons _ _ => simp at hlast
        rw [List.append_nil]
        exact ⟨[], node, rest, rfl, rfl, fresh, exists_mem_gather selfRest⟩

/-- Classes are disjoint where two that have a node in common are one. -/
theorem gather_pairwise (self : ∀ a ∈ nodes, a ∈ classOf a)
    (overlap : ∀ a ∈ nodes, ∀ b ∈ nodes, ∀ x, x ∈ classOf a → x ∈ classOf b → b ∈ classOf a) :
    (gather classOf nodes).Pairwise List.Disjoint := by
  induction nodes with
  | nil => exact List.Pairwise.nil
  | cons node rest ih =>
    have selfRest : ∀ a ∈ rest, a ∈ classOf a := fun a ha => self a (List.mem_cons_of_mem _ ha)
    have inRest := ih selfRest fun a ha b hb =>
      overlap a (List.mem_cons_of_mem _ ha) b (List.mem_cons_of_mem _ hb)
    rcases gather_cons node rest with ⟨same, -⟩ | ⟨grown, fresh⟩
    · rw [same]
      exact inRest
    · rw [grown]
      refine List.pairwise_append.2
        ⟨inRest, List.pairwise_singleton _ _, fun c hc c' hc' x hx hx' => ?_⟩
      rw [List.mem_singleton.1 hc'] at hx'
      obtain ⟨earlier, later, split⟩ := List.append_of_mem hc
      obtain ⟨before, a, after, rfl, rfl, -⟩ := gather_split selfRest split
      have ha : a ∈ node :: (before ++ a :: after) := by simp
      exact fresh _ hc (overlap a ha node List.mem_cons_self x hx hx')

end Gather

def component (successors : α → List α) (nodes : List α) (node : α) : List α :=
  (finishOrder successors nodes).filter (linked successors nodes node)

theorem components_eq_gather :
    components successors nodes = gather (component successors nodes)
    (finishOrder successors nodes) :=
  List.foldl_reverse

theorem mem_component (closed : Closed successors nodes) {a b : α} (ha : a ∈ nodes) :
    b ∈ component successors nodes a ↔ b ∈ nodes ∧ Reaches successors a b ∧
    Reaches successors b a := by
  rw [component, List.mem_filter, mem_finishOrder closed]
  exact and_congr_right fun hb => linked_iff closed ha hb

theorem self_mem_component (closed : Closed successors nodes) :
    ∀ a ∈ finishOrder successors nodes, a ∈ component successors nodes a := by
  intro a ha
  have ha := (mem_finishOrder closed).1 ha
  exact (mem_component closed ha).2 ⟨ha, .refl, .refl⟩

/-- The nodes of a component are those that reach and are reached from any of them. -/
theorem mem_iff_of_mem_components (closed : Closed successors nodes) {c : List α}
    (hc : c ∈ components successors nodes) {a b : α} (ha : a ∈ c) :
    b ∈ c ↔ b ∈ nodes ∧ Reaches successors a b ∧ Reaches successors b a := by
  rw [components_eq_gather] at hc
  obtain ⟨earlier, later, split⟩ := List.append_of_mem hc
  obtain ⟨before, node, after, hnodes, rfl, -⟩ := gather_split (self_mem_component closed) split
  have hnode : node ∈ nodes := (mem_finishOrder closed).1 (by simp [hnodes])
  rw [mem_component closed hnode] at ha ⊢
  obtain ⟨-, hto, hback⟩ := ha
  exact and_congr_right fun _ =>
    ⟨fun h => ⟨hback.trans h.1, h.2.trans hto⟩, fun h => ⟨hto.trans h.1, h.2.trans hback⟩⟩

/-- Each node is in one component, once. -/
theorem components_flatten_nodup (closed : Closed successors nodes) :
    (components successors nodes).flatten.Nodup := by
  rw [components_eq_gather, List.nodup_flatten]
  constructor
  · intro c hc
    obtain ⟨earlier, later, split⟩ := List.append_of_mem hc
    obtain ⟨_, _, _, -, rfl, -⟩ := gather_split (self_mem_component closed) split
    exact (finishOrder_nodup closed).filter _
  · refine gather_pairwise (self_mem_component closed) fun a ha b hb x hxa hxb => ?_
    rw [mem_finishOrder closed] at ha hb
    rw [mem_component closed ha] at hxa ⊢
    rw [mem_component closed hb] at hxb
    exact ⟨hb, hxa.2.1.trans hxb.2.2, hxb.2.1.trans hxa.2.2⟩

theorem mem_components_flatten (closed : Closed successors nodes) {a : α} :
    a ∈ (components successors nodes).flatten ↔ a ∈ nodes := by
  rw [List.mem_flatten, components_eq_gather]
  constructor
  · rintro ⟨c, hc, hac⟩
    rw [← components_eq_gather] at hc
    exact ((mem_iff_of_mem_components closed hc hac).1 hac).1
  · intro ha
    exact exists_mem_gather (self_mem_component closed) a ((mem_finishOrder closed).2 ha)

/-- A component comes after those with an edge to it. -/
theorem components_before (closed : Closed successors nodes)
    {earlier later : List (List α)} {c : List α}
    (split : components successors nodes = earlier ++ c :: later) {a b : α} (hb : b ∈ c)
    (ha : a ∈ nodes) (edge : b ∈ successors a) (apart : ¬ Reaches successors b a) :
    ∃ c' ∈ earlier, a ∈ c' := by
  have hc : c ∈ components successors nodes := by simp [split]
  have hearlier : ∀ c' ∈ earlier, c' ∈ components successors nodes := fun c' h => by simp [split, h]
  rw [components_eq_gather] at split
  obtain ⟨before, root, after, hfinish, rfl, -, hafter⟩ :=
    gather_split (self_mem_component closed) split
  have hroot : root ∈ nodes := (mem_finishOrder closed).1 (by simp [hfinish])
  have hrooted : Reaches successors b root := ((mem_component closed hroot).1 hb).2.2
  -- the last node to end among those linked to the source of the edge
  have linked_self : Reaches successors a a ∧ Reaches successors a a := ⟨.refl, .refl⟩
  obtain ⟨before', last, after', hfinish', ⟨hto, hback⟩, hlast⟩ := exists_last
    (p := fun x => Reaches successors a x ∧ Reaches successors x a)
    ((mem_finishOrder closed).2 ha) linked_self
  have apart' : ¬ Reaches successors b last := fun h => apart (h.trans hback)
  rcases append_split (hfinish'.symm.trans hfinish) with ⟨rest, hbefore⟩ | ⟨rest, -, hafter'⟩
  · -- it ends after the component, so it is in an earlier one, and so is all that is linked to it
    have hmem : last ∈ after := by
      rw [hfinish', hbefore, List.append_assoc, List.cons_append] at hfinish
      have cancelled := (List.cons.inj (List.append_cancel_left hfinish)).2
      simp [← cancelled]
    obtain ⟨c', hc', hlast'⟩ := hafter last hmem
    exact ⟨c', hc', (mem_iff_of_mem_components closed (hearlier c' hc') hlast').2 ⟨ha, hback, hto⟩⟩
  · cases rest with
    | nil => exact absurd ((List.cons.inj hafter').1 ▸ hrooted) apart'
    | cons first rest =>
      have hroot' : root ∈ after' := by simp [(List.cons.inj hafter').2]
      have ha' : a ∈ before' ++ [last] := by
        have hmem := (mem_finishOrder closed).2 ha
        rw [hfinish', List.append_cons, List.mem_append] at hmem
        exact hmem.resolve_right fun h => hlast a h linked_self
      have hb' := (mem_of_edge closed hfinish' ha' edge).resolve_right apart'
      have hmem := (mem_of_reaches closed hfinish' hb' hrooted).resolve_right apart'
      -- the end of the component would come both before and after
      have nodup := finishOrder_nodup closed
      rw [hfinish', List.append_cons] at nodup
      exact absurd rfl ((List.nodup_append.1 nodup).2.2 root hmem root hroot')

/-- No component has an edge to one before it. -/
theorem components_pairwise (closed : Closed successors nodes) :
    (components successors nodes).Pairwise fun first second =>
      ∀ b ∈ first, ∀ a ∈ second, b ∉ successors a := by
  refine pairwise_of_splits fun earlier c later split second hsecond b hb a ha edge => ?_
  have disjoint := (List.nodup_flatten.1 (components_flatten_nodup closed)).2
  rw [split] at disjoint
  obtain ⟨-, inLater, across⟩ := List.pairwise_append.1 disjoint
  have hmem : second ∈ components successors nodes := by simp [split, hsecond]
  have hnode : a ∈ nodes := ((mem_iff_of_mem_components closed hmem ha).1 ha).1
  have apart : ¬ Reaches successors b a := fun hreach =>
    (List.pairwise_cons.1 inLater).1 second hsecond
      ((mem_iff_of_mem_components closed (by simp [split]) hb).2 ⟨hnode, hreach, .single edge⟩) ha
  obtain ⟨c', hc', ha'⟩ := components_before closed split hb hnode edge apart
  exact across c' hc' second (List.mem_cons_of_mem _ hsecond) ha' ha

end PlatformGuard.Search
