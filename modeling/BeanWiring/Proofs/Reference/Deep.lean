/-
# Deep walks

What a deep walk does as it goes on from bean to bean.

An edge is *settled* in a walk if the bean it leaves has been met and, unless it was found
inside an inner bean, so has the bean it leads to.  A walk meets a bean in the very step that
records the edge to it, so a walk whose edges are all settled stays so; in particular an edge
that is there already never leads to a bean that is still to be met.

A step *advances* a walk: nothing recorded gets lost, and every bean met on the way is the
target of an edge and has all its direct edges recorded by the time the step is over.

Main statement: `advances_expand`, that walking a bean advances the walk and records the
direct edges of the bean.  The fuel never runs out: a bean joins those met before more of it
is spent, and no bean is met twice.
-/
import Mathlib.Data.List.Nodup
import Mathlib.Data.List.Perm.Subperm
import BeanWiring.Proofs.Reference.Edges

namespace BeanWiring

/-! ## Settled edges -/

/-- Both ends of the edge are beans that names lead to, its source has been met, and so has
its target unless the edge was found inside an inner bean. -/
structure Reference.IsSettled (ctx : Context) (met : List BeanId) (e : Reference) : Prop where
  findsSource : ctx.Finds e.source
  findsTarget : ctx.Finds e.target
  source : e.source.id ∈ met
  target : e.isInner = false → e.target.id ∈ met

namespace Walk

/-- Notes that a bean is met. -/
def meet (w : Walk) (b : Bean) : Walk := { w with visited := b.id :: w.visited }

/-- Every edge of the walk is settled. -/
def IsSettled (ctx : Context) (w : Walk) : Prop :=
  ∀ e ∈ w.edges.toList, e.IsSettled ctx w.visited

/-- The direct edges of a bean are recorded. -/
def Covers (rules : List InterceptorRule) (ctx : Context) (w : Walk) (b : Bean) : Prop :=
  ∀ e ∈ directEdges rules ctx b, w.edges.has e.key = true

variable {ctx : Context} {w w' : Walk}

/-- A walk stays settled if the edges it gains are settled. -/
theorem IsSettled.gain (settled : w.IsSettled ctx) (met : w.visited ⊆ w'.visited)
    (edges : ∀ e ∈ w'.edges.toList, e ∈ w.edges.toList ∨ e.IsSettled ctx w'.visited) :
    w'.IsSettled ctx := by
  intro e he
  rcases edges e he with before | new
  · obtain ⟨findsSource, findsTarget, source, target⟩ := settled e before
    exact ⟨findsSource, findsTarget, met source, fun outer => met (target outer)⟩
  · exact new

end Walk

/-! ## Advancing -/

/-- The walk has gone on from `w` to `w'`, where all its edges are settled. -/
structure Walk.Advances (rules : List InterceptorRule) (ctx : Context) (w w' : Walk) :
    Prop where
  visited : w.visited <:+ w'.visited
  once : w.visited.Nodup → w'.visited.Nodup
  edges : ∀ e ∈ w.edges.toList, e ∈ w'.edges.toList
  settled : w'.IsSettled ctx
  /-- A bean met on the way is one that an edge leads to, and its own edges are recorded. -/
  met : ∀ id ∈ w'.visited, id ∉ w.visited →
    ∃ e ∈ w'.edges.toList, e.isInner = false ∧ e.target.id = id ∧ w'.Covers rules ctx e.target

namespace Walk

section Advances

variable {rules : List InterceptorRule} {ctx : Context} {w w' w'' : Walk}

theorem Advances.has (h : w.Advances rules ctx w') {k : ReferenceKey}
    (there : w.edges.has k = true) : w'.edges.has k = true := by
  obtain ⟨e, he, rfl⟩ := EdgeSet.exists_of_has there
  exact EdgeSet.has_of_mem (h.edges e he)

theorem Advances.covers (h : w.Advances rules ctx w') {b : Bean} (covers : w.Covers rules ctx b) :
    w'.Covers rules ctx b :=
  fun e he => h.has (covers e he)

theorem Advances.refl (settled : w.IsSettled ctx) : w.Advances rules ctx w where
  visited := List.suffix_rfl
  once := id
  edges := fun _ he => he
  settled := settled
  met := fun _ there new => absurd there new

theorem Advances.trans (first : w.Advances rules ctx w') (second : w'.Advances rules ctx w'') :
    w.Advances rules ctx w'' where
  visited := first.visited.trans second.visited
  once := fun once => second.once (first.once once)
  edges := fun e he => second.edges e (first.edges e he)
  settled := second.settled
  met := by
    intro id there new
    -- A bean is met in the first part or in the second, and stays covered.
    by_cases between : id ∈ w'.visited
    · obtain ⟨e, he, outer, target, covers⟩ := first.met id between new
      exact ⟨e, second.edges e he, outer, target, second.covers covers⟩
    · exact second.met id there between

/-- A step that meets no bean advances the walk if the edges it adds are settled. -/
theorem Advances.of_visited_eq (settled : w.IsSettled ctx) (same : w'.visited = w.visited)
    (kept : ∀ e ∈ w.edges.toList, e ∈ w'.edges.toList)
    (edges : ∀ e ∈ w'.edges.toList, e ∈ w.edges.toList ∨ e.IsSettled ctx w.visited) :
    w.Advances rules ctx w' where
  visited := same ▸ List.suffix_rfl
  once := fun once => same ▸ once
  edges := kept
  settled := settled.gain (by rw [same]; exact List.Subset.refl _) (by rwa [same])
  met := fun _ there new => absurd (same ▸ there) new

theorem advances_ask (rules : List InterceptorRule) (settled : w.IsSettled ctx)
    (names : List String) : w.Advances rules ctx (w.ask names) :=
  .of_visited_eq settled rfl (fun _ he => he) fun _ he => .inl he

/-- Meeting the target of a recorded edge and going on from there advances the walk, if the
edges of the target are recorded in the end. -/
theorem Advances.of_meet {e : Reference} {edges : EdgeSet} (new : e.target.id ∉ w.visited)
    (kept : ∀ f ∈ w.edges.toList, f ∈ edges.toList) (recorded : e ∈ edges.toList)
    (outer : e.isInner = false)
    (h : ({ w with edges := edges }.meet e.target).Advances rules ctx w')
    (covers : w'.Covers rules ctx e.target) : w.Advances rules ctx w' where
  visited := (List.suffix_cons e.target.id w.visited).trans h.visited
  once := fun once => h.once (List.nodup_cons.2 ⟨new, once⟩)
  edges := fun f hf => h.edges f (kept f hf)
  settled := h.settled
  met := by
    intro id there fresh
    by_cases isTarget : id = e.target.id
    · exact ⟨e, h.edges e recorded, outer, isTarget.symm, covers⟩
    · refine h.met id there ?_
      rw [meet, List.mem_cons]
      exact fun or => or.elim isTarget fresh

end Advances

/-! ## Fuel -/

/-- The beans met are beans of the context, none of them twice, and there is fuel for all
those that are left. -/
structure HasRoom (ctx : Context) (fuel : Nat) (w : Walk) : Prop where
  once : w.visited.Nodup
  inside : w.visited ⊆ ctx.allBeans.map Bean.id
  enough : ctx.allBeans.length < fuel + w.visited.length

section Room

variable {rules : List InterceptorRule} {ctx : Context} {fuel : Nat} {w w' : Walk}

theorem HasRoom.ne_zero (room : w.HasRoom ctx fuel) : fuel ≠ 0 := by
  have bound := (room.once.subperm room.inside).length_le
  rw [List.length_map] at bound
  have := room.enough
  omega

theorem HasRoom.advance (room : w.HasRoom ctx fuel) (h : w.Advances rules ctx w') :
    w'.HasRoom ctx fuel where
  once := h.once room.once
  inside := by
    intro id there
    by_cases before : id ∈ w.visited
    · exact room.inside before
    · obtain ⟨e, he, -, rfl, -⟩ := h.met id there before
      exact List.mem_map_of_mem (h.settled e he).findsTarget.mem_allBeans
  enough := by
    have longer := h.visited.length_le
    have := room.enough
    omega

theorem HasRoom.more (room : w.HasRoom ctx fuel) : w.HasRoom ctx (fuel + 1) where
  once := room.once
  inside := room.inside
  enough := by
    have := room.enough
    omega

/-- A bean that is met pays for the fuel that is spent on it. -/
theorem HasRoom.meet {b : Bean} (room : w.HasRoom ctx (fuel + 1)) (finds : ctx.Finds b)
    (new : b.id ∉ w.visited) : (w.meet b).HasRoom ctx fuel where
  once := List.nodup_cons.2 ⟨new, room.once⟩
  inside := List.cons_subset.2 ⟨List.mem_map_of_mem finds.mem_allBeans, room.inside⟩
  enough := by
    have := room.enough
    rw [Walk.meet, List.length_cons]
    omega

end Room

/-! ## From a bean to the targets of its edges -/

/-- What a walk from `source` needs of the way it goes on from targets: a new target is met,
and then walked until all its direct edges are recorded. -/
def Visits (rules : List InterceptorRule) (ctx : Context) (fuel : Nat) (source : Bean)
    (visit : Walk → Bean → Walk) : Prop :=
  ∀ (w : Walk) (t : Bean), source.id ∈ w.visited → ctx.Finds t → t.id ∉ w.visited →
    (w.meet t).HasRoom ctx fuel → (w.meet t).IsSettled ctx →
      (w.meet t).Advances rules ctx (visit w t) ∧ (visit w t).Covers rules ctx t

/-- Records an edge and goes on from its target if that is to be walked. -/
def goOn (visit : Walk → Bean → Walk) (ctx : Context) (kind : ReferenceKind) (source : Bean)
    (member : Member) (target : Bean) (w : Walk) : Walk :=
  if (w.add ctx kind source member target).2 then
    visit (w.add ctx kind source member target).1 target
  else
    (w.add ctx kind source member target).1

section GoOn

variable {rules : List InterceptorRule} {ctx : Context} {fuel : Nat} {source : Bean}
  {visit : Walk → Bean → Walk} {w : Walk}

/-- Recording an edge to a bean that has been met advances the walk. -/
theorem advances_insert (rules : List InterceptorRule) (settled : w.IsSettled ctx)
    {e : Reference} (new : e.IsSettled ctx w.visited) :
    w.Advances rules ctx { w with edges := w.edges.insert e } := by
  refine .of_visited_eq settled rfl (fun f hf => EdgeSet.mem_insert_of_mem hf) ?_
  intro f hf
  rcases EdgeSet.mem_or_eq_of_mem_insert hf with hf | rfl
  · exact .inl hf
  · exact .inr new

/-- Recording an edge to a bean that is still to be met, and going on from there, advances the
walk. -/
theorem advances_insert_visit (visits : Visits rules ctx fuel source visit) {e : Reference}
    (room : w.HasRoom ctx (fuel + 1)) (settled : w.IsSettled ctx) (isSource : e.source = source)
    (outer : e.isInner = false) (findsSource : ctx.Finds source) (met : source.id ∈ w.visited)
    (findsTarget : ctx.Finds e.target) (new : e.target.id ∉ w.visited)
    (recorded : e ∈ (w.edges.insert e).toList) :
    w.Advances rules ctx (visit { w with edges := w.edges.insert e } e.target) ∧
      e ∈ (visit { w with edges := w.edges.insert e } e.target).edges.toList := by
  set w₁ : Walk := { w with edges := w.edges.insert e }
  have settled₁ : (w₁.meet e.target).IsSettled ctx := by
    refine settled.gain (List.subset_cons_self _ _) ?_
    intro f hf
    rcases EdgeSet.mem_or_eq_of_mem_insert hf with hf | rfl
    · exact .inl hf
    · -- The target is met in the same step, so its own edge is settled.
      exact .inr ⟨isSource ▸ findsSource, findsTarget,
        isSource ▸ List.mem_cons_of_mem _ met, fun _ => List.mem_cons_self⟩
  have room₁ : (w₁.meet e.target).HasRoom ctx fuel := by
    have room' := room.meet findsTarget new
    exact ⟨room'.once, room'.inside, room'.enough⟩
  obtain ⟨advances, covers⟩ := visits w₁ e.target met findsTarget new room₁ settled₁
  exact ⟨.of_meet new (fun f hf => EdgeSet.mem_insert_of_mem hf) recorded outer advances covers,
    advances.edges e recorded⟩

/-- Recording an edge and going on advances the walk, and the edge is there afterwards unless
it is one of the bean as a whole to itself. -/
theorem advances_goOn (visits : Visits rules ctx fuel source visit) (kind : ReferenceKind)
    (member : Member) {target : Bean} (room : w.HasRoom ctx (fuel + 1))
    (settled : w.IsSettled ctx) (findsSource : ctx.Finds source) (met : source.id ∈ w.visited)
    (findsTarget : ctx.Finds target) :
    w.Advances rules ctx (goOn visit ctx kind source member target w) ∧
      (¬(member = .bean ∧ source.id = target.id) →
        (goOn visit ctx kind source member target w).edges.has
          (Reference.key ⟨kind, source, member, target, ctx.name, false⟩) = true) := by
  unfold goOn add
  by_cases self : member = .bean ∧ source.id = target.id
  · simp only [self, and_self, if_true]
    exact ⟨.refl settled, fun other => absurd trivial other⟩
  · simp only [self, if_false]
    set e : Reference := ⟨kind, source, member, target, ctx.name, false⟩
    by_cases there : w.edges.has e.key = true
    · -- An edge that is there is settled, so its target is not to be met any more.
      rw [EdgeSet.insert_of_has there]
      simp only [there, Bool.not_true, Bool.false_and, Bool.false_eq_true, if_false]
      exact ⟨.refl settled, fun _ => trivial⟩
    · have recorded : e ∈ (w.edges.insert e).toList := EdgeSet.mem_insert_self there
      by_cases before : target.id ∈ w.visited
      · simp only [before, not_true, decide_false, Bool.and_false, Bool.false_eq_true, if_false]
        exact ⟨advances_insert rules settled ⟨findsSource, findsTarget, met, fun _ => before⟩,
          fun _ => EdgeSet.has_of_mem recorded⟩
      · simp only [there, before, Bool.not_false, not_false_iff, decide_true, Bool.and_true,
          if_true]
        obtain ⟨advances, kept⟩ := advances_insert_visit visits (e := e) room settled rfl rfl
          findsSource met findsTarget before recorded
        exact ⟨advances, fun _ => EdgeSet.has_of_mem kept⟩

end GoOn

/-! ## Links, ancestors and inner beans -/

section Parts

variable {rules : List InterceptorRule} {ctx : Context} {fuel : Nat} {b : Bean}
  {visit : Walk → Bean → Walk} {w : Walk}

/-- Following a link advances the walk, and its edge is there afterwards. -/
theorem advances_follow (visits : Visits rules ctx fuel b visit) (l : Link)
    (room : w.HasRoom ctx (fuel + 1)) (settled : w.IsSettled ctx) (finds : ctx.Finds b)
    (met : b.id ∈ w.visited) :
    w.Advances rules ctx (follow visit ctx b w l) ∧
      ∀ e, edgeOf? ctx b l = some e → (follow visit ctx b w l).edges.has e.key = true := by
  have asks := advances_ask rules settled [l.reference.beanName]
  cases found : ctx.resolve? l.reference.beanName with
  | none =>
    have stays : follow visit ctx b w l = w.ask [l.reference.beanName] := by
      simp only [follow, found]
    rw [stays]
    refine ⟨asks, fun e made => ?_⟩
    rw [edgeOf?, found] at made
    cases made
  | some target =>
    have goes : follow visit ctx b w l
        = goOn visit ctx l.reference.kind b l.member target (w.ask [l.reference.beanName]) := by
      simp only [follow, found, goOn]
    obtain ⟨advances, recorded⟩ := advances_goOn visits l.reference.kind l.member
      (room.advance asks) asks.settled finds met ⟨_, found⟩
    rw [goes]
    refine ⟨asks.trans advances, fun e made => ?_⟩
    obtain ⟨found', other, edge⟩ := edgeOf?_eq_some made
    rw [found, Option.some.injEq] at found'
    rw [edge, ← found']
    exact recorded (found' ▸ other)

/-- So does following many links. -/
theorem advances_follows (visits : Visits rules ctx fuel b visit) (links : List Link)
    (room : w.HasRoom ctx (fuel + 1)) (settled : w.IsSettled ctx) (finds : ctx.Finds b)
    (met : b.id ∈ w.visited) :
    w.Advances rules ctx (links.foldl (follow visit ctx b) w) ∧
      ∀ l ∈ links, ∀ e, edgeOf? ctx b l = some e →
        (links.foldl (follow visit ctx b) w).edges.has e.key = true := by
  -- What one link has recorded is there after all later ones.
  induction links generalizing w with
  | nil => exact ⟨.refl settled, fun l hl => by cases hl⟩
  | cons l links ih =>
    obtain ⟨first, recorded⟩ := advances_follow visits l room settled finds met
    obtain ⟨rest, later⟩ :=
      ih (room.advance first) first.settled (first.visited.subset met)
    refine ⟨first.trans rest, ?_⟩
    intro k hk e made
    rcases List.mem_cons.1 hk with rfl | hk
    · exact rest.has (recorded e made)
    · exact later k hk e made

/-- Going up along further ancestors advances the walk, however far the way up is followed. -/
theorem advances_ancestorEdges (visits : Visits rules ctx fuel b visit) (steps : Nat)
    (followed : List String) (current : Bean) (room : w.HasRoom ctx (fuel + 1))
    (settled : w.IsSettled ctx) (finds : ctx.Finds b) (met : b.id ∈ w.visited) :
    w.Advances rules ctx (ancestorEdges visit ctx b steps followed current w) := by
  induction steps generalizing followed current w with
  | zero => exact .refl settled
  | succ steps ih =>
    unfold ancestorEdges
    cases parent : current.parent with
    | none => exact .refl settled
    | some name =>
      by_cases before : name ∈ followed
      · simp only [before, if_true]
        exact .refl settled
      · simp only [before, if_false]
        have asks := advances_ask rules settled [name]
        cases found : ctx.resolve? name with
        | none => exact asks
        | some next =>
          obtain ⟨advances, -⟩ := advances_goOn visits .parent .bean (room.advance asks)
            asks.settled finds met ⟨_, found⟩
          have first := asks.trans advances
          exact first.trans (ih (name :: followed) next (room.advance first) first.settled
            (first.visited.subset met))

/-- The edges to the parent and beyond advance the walk, and that of the link to the parent is
there afterwards. -/
theorem advances_parentEdges (visits : Visits rules ctx fuel b visit)
    (room : w.HasRoom ctx (fuel + 1)) (settled : w.IsSettled ctx) (finds : ctx.Finds b)
    (met : b.id ∈ w.visited) :
    w.Advances rules ctx (parentEdges visit ctx b w) ∧
      ∀ l ∈ parentLink b, ∀ e, edgeOf? ctx b l = some e →
        (parentEdges visit ctx b w).edges.has e.key = true := by
  -- Going on from the parent, the walk takes in the further ancestors as well.
  have onwards : Visits rules ctx fuel b fun w parent =>
      ancestorEdges visit ctx b (ctx.allBeans.length + 2) [parent.name, b.name] parent
        (visit w parent) := by
    intro w t met findsT new room settled
    obtain ⟨first, covers⟩ := visits w t met findsT new room settled
    have rest := advances_ancestorEdges visits (ctx.allBeans.length + 2) [t.name, b.name] t
      (room.advance first).more first.settled finds
      (first.visited.subset (List.mem_cons_of_mem _ met))
    exact ⟨first.trans rest, rest.covers covers⟩
  cases parent : b.parent with
  | none =>
    have stays : parentEdges visit ctx b w = w := by simp only [parentEdges, parent]
    rw [stays, parentLink, parent]
    exact ⟨.refl settled, fun l hl => by cases hl⟩
  | some name =>
    have follows : parentEdges visit ctx b w
        = follow (fun w parent =>
            ancestorEdges visit ctx b (ctx.allBeans.length + 2) [parent.name, b.name] parent
              (visit w parent)) ctx b w ⟨.bean, ⟨.parent, name⟩⟩ := by
      simp only [parentEdges, parent, follow]
    have only : parentLink b = [⟨.bean, ⟨.parent, name⟩⟩] := by rw [parentLink, parent]; rfl
    obtain ⟨advances, recorded⟩ :=
      advances_follow onwards ⟨.bean, ⟨.parent, name⟩⟩ room settled finds met
    rw [follows, only]
    refine ⟨advances, fun l hl => ?_⟩
    rw [List.mem_singleton.1 hl]
    exact recorded

/-- Crediting the edges of inner beans advances the walk, and they are there afterwards. -/
theorem advances_creditAll (rules : List InterceptorRule) (nests : List Nest)
    (settled : w.IsSettled ctx) (finds : ctx.Finds b) (met : b.id ∈ w.visited) :
    w.Advances rules ctx (creditAll rules ctx b w nests) ∧
      ∀ e ∈ creditedEdges rules ctx b nests,
        (creditAll rules ctx b w nests).edges.has e.key = true := by
  have recorded : ∀ k, (creditAll rules ctx b w nests).edges.has k = true ↔
      w.edges.has k = true ∨ k ∈ (creditedEdges rules ctx b nests).map Reference.key := by
    intro k
    rw [edges_creditAll, EdgeSet.has_foldl_insert]
  constructor
  · refine .of_visited_eq settled (visited_creditAll b w nests) ?_ ?_
    · intro e he
      rw [edges_creditAll]
      exact EdgeSet.mem_foldl_insert_of_mem he
    · intro e he
      rw [edges_creditAll] at he
      rcases EdgeSet.mem_or_mem_of_mem_foldl_insert he with before | credited
      · exact .inl before
      · obtain ⟨source, isInner⟩ := source_of_mem_creditedEdges credited
        refine .inr ⟨source ▸ finds, finds_target_creditedEdges b nests e credited,
          source ▸ met, fun outer => ?_⟩
        rw [isInner] at outer
        cases outer
  · exact fun e he => (recorded e.key).2 (.inr (List.mem_map_of_mem he))

end Parts

/-! ## Walking a bean -/

section Expand

variable {rules : List InterceptorRule} {ctx : Context}

/-- **Walking a bean.**  Walking a bean that has been met advances the walk, and the direct
edges of the bean are recorded in the end. -/
theorem advances_expand (fuel : Nat) {w : Walk} {b : Bean} (room : w.HasRoom ctx fuel)
    (settled : w.IsSettled ctx) (finds : ctx.Finds b) (met : b.id ∈ w.visited) :
    w.Advances rules ctx (expand rules ctx fuel w b) ∧
      (expand rules ctx fuel w b).Covers rules ctx b := by
  induction fuel generalizing w b with
  | zero => exact absurd rfl room.ne_zero
  | succ fuel ih =>
    have visits : Visits rules ctx fuel b fun (w : Walk) (t : Bean) =>
        if t.id ∈ w.visited then w
        else expand rules ctx fuel { w with visited := t.id :: w.visited } t := by
      intro w t _ findsT new room settled
      simp only [new, if_false]
      exact ih room settled findsT List.mem_cons_self
    unfold expand
    -- The walk goes through four stages; each of them advances it, and what has been
    -- recorded in one of them is there in all later ones.
    obtain ⟨toParent, recordedParent⟩ := advances_parentEdges visits room settled finds met
    have asks := toParent.trans (advances_ask rules toParent.settled (ancestorsAsked ctx b))
    obtain ⟨links, recordedLinks⟩ := advances_follows visits
      (beanLinks rules ctx b (merged ctx b)).1 (room.advance asks) asks.settled finds
      (asks.visited.subset met)
    have linked := asks.trans links
    have asked := advances_ask rules linked.settled
      (beanLinks rules ctx b (merged ctx b)).2
    obtain ⟨credits, recordedCredits⟩ := advances_creditAll rules b.nest.inner
      asked.settled finds (linked.visited.subset met)
    have rest := asked.trans credits
    refine ⟨linked.trans rest, ?_⟩
    intro e he
    rcases List.mem_append.1 he with link | credited
    · obtain ⟨l, declared, made⟩ := List.mem_filterMap.1 link
      rcases List.mem_append.1 declared with parent | declared
      · have later :=
          ((advances_ask rules toParent.settled (ancestorsAsked ctx b)).trans links).trans rest
        exact later.has (recordedParent l parent e made)
      · exact rest.has (recordedLinks l (beanLinks_merged rules ctx b declared) e made)
    · exact recordedCredits e credited

end Expand

end Walk

end BeanWiring
