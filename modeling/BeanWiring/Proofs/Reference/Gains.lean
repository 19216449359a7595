/-
# The edges that a deep walk gains

Which edges a walk lists, and in which order it comes to the beans.

Of a bean that it meets, a walk lists the merged edges.  It also lists the edges to the further
ancestors of the bean, but only if the parent of the bean is still to be met: the way up starts
from a parent that is walked.  So what is listed of a bean is settled when the bean is met, by
the beans met before it; later ones make no difference, as the beans met are a list that only
grows at its front.

A step *gains* edges of its own for the bean that it works for, and those listed of the beans
that it meets on the way, which are beans reached from there.

Main statement: `gains_expand`, that walking a bean gains what is listed of it.
-/
import BeanWiring.Proofs.Reference.Closure
import BeanWiring.Proofs.Reference.Reach

namespace BeanWiring

/-! ## What is listed of a bean -/

/-- The parent of a bean was met before the bean.  The beans met are in reverse order. -/
def ParentFirst (ctx : Context) (visited : List BeanId) (c : Bean) : Prop :=
  ∃ p, (ancestors ctx c).head? = some p ∧ [c.id, p.id].Sublist visited

/-- A walk that met beans in this order lists the edge: it is a merged edge of its source, or
leads to an ancestor of it, and the parent was not met first. -/
def Lists (rules : List InterceptorRule) (ctx : Context) (visited : List BeanId)
    (e : Reference) : Prop :=
  e ∈ mergedEdges rules ctx e.source ∨
    ¬ParentFirst ctx visited e.source ∧
      ∃ a ∈ ancestors ctx e.source, e = toAncestor ctx e.source a

section Listing

variable {rules : List InterceptorRule} {ctx : Context} {ids later : List BeanId}

/-- What was met before an identity stays the same when more is met. -/
theorem pair_sublist_iff {i j : BeanId} (grows : ids <:+ later) (once : later.Nodup)
    (met : i ∈ ids) : [i, j].Sublist later ↔ [i, j].Sublist ids := by
  obtain ⟨new, rfl⟩ := grows
  constructor
  · intro h
    obtain ⟨front, back, split, inNew, inIds⟩ := List.sublist_append_iff.1 h
    cases front with
    | nil => rwa [split]
    | cons x front =>
      obtain ⟨rfl, -⟩ := List.cons.inj split
      exact absurd rfl ((List.nodup_append.1 once).2.2 i (inNew.subset List.mem_cons_self) i met)
  · exact fun h => h.trans (List.sublist_append_right new ids)

theorem parentFirst_iff {c : Bean} (grows : ids <:+ later) (once : later.Nodup)
    (met : c.id ∈ ids) : ParentFirst ctx later c ↔ ParentFirst ctx ids c :=
  exists_congr fun _ => and_congr_right fun _ => pair_sublist_iff grows once met

theorem lists_iff {e : Reference} (grows : ids <:+ later) (once : later.Nodup)
    (met : e.source.id ∈ ids) : Lists rules ctx later e ↔ Lists rules ctx ids e := by
  rw [Lists, Lists, parentFirst_iff grows once met]

/-- When a bean is met, its parent was met first if it is among those met before. -/
theorem parentFirst_meet_iff {c : Bean} :
    ParentFirst ctx (c.id :: ids) c ↔ ∃ p, (ancestors ctx c).head? = some p ∧ p.id ∈ ids :=
  exists_congr fun _ => and_congr_right fun _ => by
    rw [List.cons_sublist_cons, List.singleton_sublist]

/-- The edges to ancestors are not listed of a bean whose parent has been met by then. -/
theorem parentFirst_or_ancestors_eq_nil {c p : Bean} (finds : ctx.Finds c) {name : String}
    (parent : c.parent = some name) (found : ctx.resolve? name = some p)
    (met : p.id ∈ c.id :: ids) : ParentFirst ctx (c.id :: ids) c ∨ ancestors ctx c = [] := by
  by_cases self : c.id = p.id
  · refine .inr (ancestors_eq_nil fun n h q found' => ?_)
    rw [parent] at h
    cases h
    rw [found] at found'
    cases found'
    exact self
  · obtain ⟨rest, chain, -⟩ := ancestors_eq_cons finds parent found self
    refine .inl (parentFirst_meet_iff.2 ⟨p, by rw [chain]; rfl, ?_⟩)
    exact (List.mem_cons.1 met).resolve_left fun same => self same.symm

end Listing

theorem EdgeSet.mem_insert_iff {s : EdgeSet} {r e : Reference} (new : ¬s.has r.key = true) :
    e ∈ (s.insert r).toList ↔ e ∈ s.toList ∨ e = r := by
  constructor
  · exact mem_or_eq_of_mem_insert
  · rintro (h | rfl)
    · exact mem_insert_of_mem h
    · exact mem_insert_self new

/-! ## Gains -/

namespace Walk

/-- The edge is listed of a bean that was met between the two states of a walk. -/
def ListsNew (rules : List InterceptorRule) (ctx : Context) (w w' : Walk) (e : Reference) :
    Prop :=
  ctx.Finds e.source ∧ e.source.id ∉ w.visited ∧ e.source.id ∈ w'.visited ∧
    Lists rules ctx w'.visited e

/-- Working for the bean `c`, the walk has gone on from `w` to `w'` and has gained the edges
`own`, those listed of the beans that it met, and no others. -/
structure Gains (rules : List InterceptorRule) (ctx : Context) (c : Bean)
    (own : Reference → Prop) (w w' : Walk) : Prop extends w.Advances rules ctx w' where
  mem_iff : ∀ e, e ∈ w'.edges.toList ↔
    e ∈ w.edges.toList ∨ own e ∨ ListsNew rules ctx w w' e
  reached : ∀ d, ctx.Finds d → d.id ∉ w.visited → d.id ∈ w'.visited → Reaches rules ctx c d

section Gains

variable {rules : List InterceptorRule} {ctx : Context} {c : Bean}
  {own own' : Reference → Prop} {w w' w'' : Walk}

theorem Gains.congr (h : w.Gains rules ctx c own w') (same : ∀ e, own e ↔ own' e) :
    w.Gains rules ctx c own' w' :=
  { h with mem_iff := fun e => by rw [h.mem_iff, same] }

/-- A step that meets no bean gains its own edges only. -/
theorem Gains.of_visited_eq (advances : w.Advances rules ctx w')
    (same : w'.visited = w.visited)
    (mem : ∀ e, e ∈ w'.edges.toList ↔ e ∈ w.edges.toList ∨ own e) :
    w.Gains rules ctx c own w' where
  toAdvances := advances
  mem_iff := by
    have none : ∀ e, ¬ListsNew rules ctx w w' e := by
      rintro e ⟨-, new, met, -⟩
      exact new (same ▸ met)
    intro e
    rw [mem, or_iff_left (none e)]
  reached := fun d _ new met => absurd (same ▸ met) new

theorem Gains.refl (settled : w.IsSettled ctx) :
    w.Gains rules ctx c (fun _ => False) w :=
  .of_visited_eq (.refl settled) rfl fun _ => (iff_of_eq (or_false _)).symm

theorem gains_ask (rules : List InterceptorRule) (c : Bean) (settled : w.IsSettled ctx)
    (names : List String) : w.Gains rules ctx c (fun _ => False) (w.ask names) :=
  .of_visited_eq (advances_ask rules settled names) rfl fun _ => (iff_of_eq (or_false _)).symm

/-- Beans met in one of two steps are met in both together. -/
theorem listsNew_iff (once : w.visited.Nodup) (first : w.Advances rules ctx w')
    (second : w'.Advances rules ctx w'') (e : Reference) :
    ListsNew rules ctx w w'' e ↔ ListsNew rules ctx w w' e ∨ ListsNew rules ctx w' w'' e := by
  have once'' := second.once (first.once once)
  constructor
  · rintro ⟨finds, new, met, lists⟩
    by_cases between : e.source.id ∈ w'.visited
    · exact .inl ⟨finds, new, between, (lists_iff second.visited once'' between).1 lists⟩
    · exact .inr ⟨finds, between, met, lists⟩
  · rintro (⟨finds, new, met, lists⟩ | ⟨finds, new, met, lists⟩)
    · exact ⟨finds, new, second.visited.subset met,
        (lists_iff second.visited once'' met).2 lists⟩
    · exact ⟨finds, fun old => new (first.visited.subset old), met, lists⟩

theorem Gains.trans (once : w.visited.Nodup) (first : w.Gains rules ctx c own w')
    (second : w'.Gains rules ctx c own' w'') :
    w.Gains rules ctx c (fun e => own e ∨ own' e) w'' where
  toAdvances := first.toAdvances.trans second.toAdvances
  mem_iff := by
    intro e
    rw [second.mem_iff, first.mem_iff,
      listsNew_iff once first.toAdvances second.toAdvances]
    tauto
  reached := by
    intro d finds new met
    by_cases between : d.id ∈ w'.visited
    · exact first.reached d finds new between
    · exact second.reached d finds between met

/-- The edges listed of the bean itself when it was met. -/
def Owns (rules : List InterceptorRule) (ctx : Context) (visited : List BeanId) (c : Bean)
    (e : Reference) : Prop :=
  e.source = c ∧ Lists rules ctx visited e

theorem owns_iff {visited : List BeanId} {e : Reference} :
    Owns rules ctx visited c e ↔ e ∈ mergedEdges rules ctx c ∨
      ¬ParentFirst ctx visited c ∧ ∃ a ∈ ancestors ctx c, e = toAncestor ctx c a := by
  constructor
  · rintro ⟨rfl, lists⟩
    exact lists
  · intro lists
    have source : e.source = c := by
      rcases lists with edge | ⟨-, a, -, rfl⟩
      · exact (ends_of_mem_mergedEdges edge).1
      · rfl
    subst source
    exact ⟨rfl, lists⟩

/-- Recording an edge, meeting its target and gaining what is listed of the target is to gain
the edge: the rest is listed of beans met on the way. -/
theorem Gains.of_meet (named : ctx.IsNamed) (once : w.visited.Nodup) {f : Reference}
    {edges : EdgeSet} (advances : w.Advances rules ctx w') (findsTarget : ctx.Finds f.target)
    (new : f.target.id ∉ w.visited)
    (recorded : ∀ e, e ∈ edges.toList ↔ e ∈ w.edges.toList ∨ e = f)
    (reaches : Reaches rules ctx c f.target)
    (h : ({ w with edges := edges }.meet f.target).Gains rules ctx f.target
      (Owns rules ctx (f.target.id :: w.visited) f.target) w') :
    w.Gains rules ctx c (· = f) w' where
  toAdvances := advances
  mem_iff := by
    have once' : w'.visited.Nodup := advances.once once
    have grows : f.target.id :: w.visited <:+ w'.visited := h.visited
    have split : ∀ e, ListsNew rules ctx w w' e ↔
        Owns rules ctx (f.target.id :: w.visited) f.target e ∨
          ListsNew rules ctx ({ w with edges := edges }.meet f.target) w' e := by
      intro e
      constructor
      · rintro ⟨finds, fresh, met, lists⟩
        by_cases isTarget : e.source.id = f.target.id
        · have inside : e.source.id ∈ f.target.id :: w.visited := isTarget ▸ List.mem_cons_self
          exact .inl ⟨named.eq_of_id finds findsTarget isTarget,
            (lists_iff grows once' inside).1 lists⟩
        · refine .inr ⟨finds, fun old => ?_, met, lists⟩
          rcases List.mem_cons.1 old with same | old
          · exact isTarget same
          · exact fresh old
      · rintro (⟨source, lists⟩ | ⟨finds, fresh, met, lists⟩)
        · have inside : e.source.id ∈ f.target.id :: w.visited := by
            rw [source]
            exact List.mem_cons_self
          exact ⟨source ▸ findsTarget, source ▸ new, grows.subset inside,
            (lists_iff grows once' inside).2 lists⟩
        · exact ⟨finds, fun old => fresh (List.mem_cons_of_mem _ old), met, lists⟩
    intro e
    rw [h.mem_iff, split]
    change e ∈ edges.toList ∨ _ ↔ _
    rw [recorded, or_assoc]
  reached := by
    intro d finds fresh met
    by_cases isTarget : d.id = f.target.id
    · rwa [named.eq_of_id finds findsTarget isTarget]
    · refine reaches.trans (h.reached d finds (fun old => ?_) met)
      rcases List.mem_cons.1 old with same | old
      · exact isTarget same
      · exact fresh old

end Gains

/-! ## From a bean to the targets of its edges -/

/-- What a walk from `source` needs of the way it goes on from targets: walking a new target
gains what is listed of it. -/
structure VisitsGaining (rules : List InterceptorRule) (ctx : Context) (fuel : Nat)
    (source : Bean) (visit : Walk → Bean → Walk) : Prop where
  visits : Visits rules ctx fuel source visit
  gains : ∀ (w : Walk) (t : Bean), ctx.Finds t → t.id ∉ w.visited →
    (w.meet t).HasRoom ctx fuel → (w.meet t).IsSettled ctx →
      (w.meet t).Gains rules ctx t (Owns rules ctx (t.id :: w.visited) t) (visit w t)

section GoOn

variable {rules : List InterceptorRule} {ctx : Context} {fuel : Nat} {b : Bean}
  {visit : Walk → Bean → Walk} {w : Walk}

/-- Only a target that is still to be met is walked. -/
theorem add_snd_iff (settled : w.IsSettled ctx) (met : b.id ∈ w.visited) (kind : ReferenceKind)
    (member : Member) (target : Bean) :
    (w.add ctx kind b member target).2 = true ↔ target.id ∉ w.visited := by
  unfold add
  by_cases self : member = .bean ∧ b.id = target.id
  · simp only [self, and_self, if_true, Bool.false_eq_true, false_iff, not_not]
    exact self.2 ▸ met
  · simp only [self, if_false, Bool.and_eq_true, Bool.not_eq_true', decide_eq_true_eq]
    refine ⟨And.right, fun new => ⟨?_, new⟩⟩
    -- An edge that is there is settled, so its target has been met.
    by_contra there
    obtain ⟨f, hf, same⟩ := EdgeSet.exists_of_has (Bool.not_eq_false _ ▸ there)
    have outer : f.isInner = false := congrArg ReferenceKey.isInner same
    have target' : f.target.id = target.id := congrArg ReferenceKey.target same
    exact new (target' ▸ (settled f hf).target outer)

/-- Recording an edge and going on gains the edge. -/
theorem gains_goOn (visits : VisitsGaining rules ctx fuel b visit) (named : ctx.IsNamed)
    (kind : ReferenceKind) (member : Member) {target : Bean} (room : w.HasRoom ctx (fuel + 1))
    (settled : w.IsSettled ctx) (finds : ctx.Finds b) (met : b.id ∈ w.visited)
    (findsTarget : ctx.Finds target)
    (reaches : edgeTo? ctx kind b member target ≠ none → Reaches rules ctx b target) :
    w.Gains rules ctx b (edgeTo? ctx kind b member target = some ·)
      (goOn visit ctx kind b member target w) := by
  have advances := (advances_goOn visits.visits kind member room settled finds met
    findsTarget).1
  have expands := add_snd_iff settled met kind member target
  unfold goOn at advances ⊢
  by_cases new : target.id ∈ w.visited
  · -- The target is not walked, and its edge is recorded unless it is there or is no edge.
    simp only [expands, new, not_true, if_false] at advances ⊢
    unfold add at advances ⊢
    by_cases self : member = .bean ∧ b.id = target.id
    · rw [if_pos self]
      refine .of_visited_eq (.refl settled) rfl fun e => ?_
      rw [edgeTo?, if_pos self]
      exact (or_iff_left (by rintro ⟨⟩)).symm
    · simp only [self, if_false] at advances ⊢
      refine .of_visited_eq advances rfl fun e => ?_
      rw [edgeTo?, if_neg self, Option.some.injEq, eq_comm]
      set f : Reference := ⟨kind, b, member, target, ctx.name, false⟩
      by_cases there : w.edges.has f.key = true
      · rw [EdgeSet.insert_of_has there]
        refine (or_iff_left_of_imp ?_).symm
        rintro rfl
        exact settled.mem_of_has named finds findsTarget there
      · exact EdgeSet.mem_insert_iff there
  · have self : ¬(member = .bean ∧ b.id = target.id) := fun self => new (self.2 ▸ met)
    have made : edgeTo? ctx kind b member target
        = some ⟨kind, b, member, target, ctx.name, false⟩ := if_neg self
    have free : ¬w.edges.has
        (Reference.key ⟨kind, b, member, target, ctx.name, false⟩) = true := by
      intro there
      obtain ⟨f, hf, same⟩ := EdgeSet.exists_of_has there
      have target' : f.target.id = target.id := congrArg ReferenceKey.target same
      exact new (target' ▸ (settled f hf).target (congrArg ReferenceKey.isInner same))
    have recorded : (w.add ctx kind b member target).1
        = { w with edges := w.edges.insert ⟨kind, b, member, target, ctx.name, false⟩ } := by
      rw [add, if_neg self]
    simp only [expands, new, not_false_iff, if_true] at advances ⊢
    rw [recorded] at advances ⊢
    set f : Reference := ⟨kind, b, member, target, ctx.name, false⟩
    set w₁ : Walk := { w with edges := w.edges.insert f }
    have settled₁ : (w₁.meet target).IsSettled ctx := by
      refine settled.gain (List.subset_cons_self _ _) fun e he => ?_
      rcases EdgeSet.mem_or_eq_of_mem_insert he with he | rfl
      · exact .inl he
      · exact .inr ⟨finds, findsTarget, List.mem_cons_of_mem _ met, fun _ => List.mem_cons_self⟩
    have room₁ : (w₁.meet target).HasRoom ctx fuel := by
      obtain ⟨once, inside, enough⟩ := room.meet findsTarget new
      exact ⟨once, inside, enough⟩
    have walked := visits.gains w₁ target findsTarget new room₁ settled₁
    refine (Gains.of_meet (f := f) named room.once advances findsTarget new
      (fun e => EdgeSet.mem_insert_iff free) (reaches (by rw [made]; rintro ⟨⟩)) walked).congr ?_
    intro e
    rw [made, Option.some.injEq, eq_comm]

end GoOn

/-! ## Links, ancestors and inner beans -/

section Parts

variable {rules : List InterceptorRule} {ctx : Context} {fuel : Nat} {b : Bean}
  {visit : Walk → Bean → Walk} {w : Walk}

/-- Following a link gains its edge. -/
theorem gains_follow (visits : VisitsGaining rules ctx fuel b visit) (named : ctx.IsNamed)
    (l : Link) (room : w.HasRoom ctx (fuel + 1)) (settled : w.IsSettled ctx)
    (finds : ctx.Finds b) (met : b.id ∈ w.visited)
    (merged : ∀ e, edgeOf? ctx b l = some e → e ∈ mergedEdges rules ctx b) :
    w.Gains rules ctx b (edgeOf? ctx b l = some ·) (follow visit ctx b w l) := by
  have asks := gains_ask rules b settled [l.reference.beanName]
  cases found : ctx.resolve? l.reference.beanName with
  | none =>
    have stays : follow visit ctx b w l = w.ask [l.reference.beanName] := by
      simp only [follow, found]
    rw [stays, edgeOf?_of_not_found found]
    exact asks.congr fun e => ⟨False.elim, by rintro ⟨⟩⟩
  | some target =>
    have goes : follow visit ctx b w l
        = goOn visit ctx l.reference.kind b l.member target (w.ask [l.reference.beanName]) := by
      simp only [follow, found, goOn]
    rw [edgeOf?_of_resolve? found] at merged ⊢
    rw [goes]
    have goesOn := gains_goOn visits named l.reference.kind l.member
      (room.advance asks.toAdvances) asks.settled finds met ⟨_, found⟩ ?_
    · exact (asks.trans room.once goesOn).congr fun e => by rw [false_or]
    · intro isEdge
      obtain ⟨e, made⟩ := Option.ne_none_iff_exists'.1 isEdge
      have edge := merged e made
      rw [edgeTo?] at made
      split at made
      · cases made
      · cases made
        exact .onward .start edge rfl

/-- Following links gains the edges of all of them. -/
theorem gains_follows (visits : VisitsGaining rules ctx fuel b visit) (named : ctx.IsNamed)
    (links : List Link) (room : w.HasRoom ctx (fuel + 1)) (settled : w.IsSettled ctx)
    (finds : ctx.Finds b) (met : b.id ∈ w.visited)
    (merged : ∀ l ∈ links, ∀ e, edgeOf? ctx b l = some e → e ∈ mergedEdges rules ctx b) :
    w.Gains rules ctx b (fun e => ∃ l ∈ links, edgeOf? ctx b l = some e)
      (links.foldl (follow visit ctx b) w) := by
  induction links generalizing w with
  | nil => exact (Gains.refl settled).congr fun e => by simp
  | cons l links ih =>
    have first := gains_follow visits named l room settled finds met
      (merged l List.mem_cons_self)
    have rest := ih (room.advance first.toAdvances) first.settled (first.visited.subset met)
      fun l' hl' => merged l' (List.mem_cons_of_mem _ hl')
    refine (first.trans room.once rest).congr fun e => ?_
    simp only [List.mem_cons, exists_eq_or_imp]

/-- Going up gains the edges to the beans that are passed. -/
theorem gains_ancestorEdges (visits : VisitsGaining rules ctx fuel b visit)
    (named : ctx.IsNamed) (steps : Nat) (followed : List String) {current : Bean}
    (room : w.HasRoom ctx (fuel + 1)) (settled : w.IsSettled ctx) (finds : ctx.Finds b)
    (met : b.id ∈ w.visited) (findsCurrent : ctx.Finds current)
    (reaches : Reaches rules ctx b current) :
    w.Gains rules ctx b
      (fun e => ∃ a ∈ climbed ctx steps followed current,
        edgeTo? ctx .parent b .bean a = some e)
      (ancestorEdges visit ctx b steps followed current w) := by
  have nothing {w : Walk} (settled : w.IsSettled ctx) : w.Gains rules ctx b
      (fun e => ∃ a ∈ ([] : List Bean), edgeTo? ctx .parent b .bean a = some e) w :=
    (Gains.refl settled).congr fun e => by simp
  induction steps generalizing followed current w with
  | zero => exact nothing settled
  | succ steps ih =>
    unfold ancestorEdges climbed
    cases parent : current.parent with
    | none => exact nothing settled
    | some name =>
      by_cases before : name ∈ followed
      · simp only [before, if_true]
        exact nothing settled
      · simp only [before, if_false]
        have asks := gains_ask rules b settled [name]
        cases found : ctx.resolve? name with
        | none => exact asks.congr fun e => by simp
        | some next =>
          have reachesNext := reaches.parent named findsCurrent parent found
          have first := asks.trans room.once
            (gains_goOn visits named .parent .bean (room.advance asks.toAdvances) asks.settled
              finds met ⟨_, found⟩ fun _ => reachesNext)
          have rest := ih (name :: followed) (room.advance first.toAdvances) first.settled
            (first.visited.subset met) ⟨_, found⟩ reachesNext
          refine (first.trans room.once rest).congr fun e => ?_
          simp only [false_or, List.mem_cons, exists_eq_or_imp]

/-- Crediting the edges of inner beans gains them. -/
theorem gains_creditAll (rules : List InterceptorRule) (named : ctx.IsNamed)
    (nests : List Nest) (settled : w.IsSettled ctx) (finds : ctx.Finds b)
    (met : b.id ∈ w.visited) :
    w.Gains rules ctx b (· ∈ creditedEdges rules ctx b nests)
      (creditAll rules ctx b w nests) := by
  obtain ⟨advances, recorded⟩ := advances_creditAll rules nests settled finds met
  refine .of_visited_eq advances (visited_creditAll b w nests) fun e => ⟨?_, ?_⟩
  · intro he
    rw [edges_creditAll] at he
    exact EdgeSet.mem_or_mem_of_mem_foldl_insert he
  · rintro (before | credited)
    · exact advances.edges e before
    · obtain ⟨source, -⟩ := source_of_mem_creditedEdges credited
      exact advances.settled.mem_of_has named (source ▸ finds)
        (finds_target_creditedEdges b nests e credited) (recorded e credited)

/-- A bean that has just been met gains the edge to its parent and, unless the parent was met
before, the edges to all its ancestors. -/
theorem gains_parentEdges (visits : VisitsGaining rules ctx fuel b visit)
    (named : ctx.IsNamed) (room : (w.meet b).HasRoom ctx (fuel + 1))
    (settled : (w.meet b).IsSettled ctx) (finds : ctx.Finds b) :
    (w.meet b).Gains rules ctx b
      (fun e => (∃ l ∈ parentLink b, edgeOf? ctx b l = some e) ∨
        ¬ParentFirst ctx (b.id :: w.visited) b ∧
          ∃ a ∈ ancestors ctx b, e = toAncestor ctx b a)
      (parentEdges visit ctx b (w.meet b)) := by
  have met : b.id ∈ (w.meet b).visited := List.mem_cons_self
  unfold parentEdges parentLink
  cases parent : b.parent with
  | none =>
    have rootless : ancestors ctx b = [] :=
      ancestors_eq_nil fun name h => by rw [parent] at h; cases h
    exact (Gains.refl settled).congr fun e => by simp [rootless]
  | some name =>
    have asks := gains_ask rules b settled [name]
    have link : ∀ e, (∃ l ∈ (some name).toList.map fun n => (⟨.bean, ⟨.parent, n⟩⟩ : Link),
        edgeOf? ctx b l = some e) ↔ edgeOf? ctx b ⟨.bean, ⟨.parent, name⟩⟩ = some e := by
      simp
    simp only [link]
    cases found : ctx.resolve? name with
    | none =>
      have rootless : ancestors ctx b = [] := by
        refine ancestors_eq_nil fun n h p found' => ?_
        rw [parent] at h
        cases h
        rw [found] at found'
        cases found'
      refine asks.congr fun e => ?_
      rw [edgeOf?_of_not_found found]
      simp [rootless]
    | some p =>
      have edge : edgeOf? ctx b ⟨.bean, ⟨.parent, name⟩⟩ = edgeTo? ctx .parent b .bean p :=
        edgeOf?_of_resolve? found
      have reaches : Reaches rules ctx b p := Reaches.start.parent named finds parent found
      have first := asks.trans room.once
        (gains_goOn visits named .parent .bean (room.advance asks.toAdvances) asks.settled finds
          met ⟨_, found⟩ fun _ => reaches)
      have expands := add_snd_iff asks.settled met .parent .bean p
      simp only [goOn, false_or] at first
      simp only [edge]
      by_cases new : p.id ∈ b.id :: w.visited
      · -- The way up is not taken: the bean is its own parent, or its parent was met first.
        have stays : ¬(((w.meet b).ask [name]).add ctx .parent b .bean p).2 = true :=
          fun h => expands.1 h new
        simp only [stays] at first ⊢
        refine first.congr fun e => (or_iff_left ?_).symm
        rintro ⟨parentLast, a, above, -⟩
        rcases parentFirst_or_ancestors_eq_nil finds parent found new with first | rootless
        · exact parentLast first
        · rw [rootless] at above
          cases above
      · have goes := expands.2 new
        have other : b.id ≠ p.id := fun self => new (self ▸ List.mem_cons_self)
        obtain ⟨rest, chain, -⟩ := ancestors_eq_cons finds parent found other
        have parentLast : ¬ParentFirst ctx (b.id :: w.visited) b := by
          rw [parentFirst_meet_iff, chain]
          rintro ⟨q, head, before⟩
          cases head
          exact new (List.mem_cons_of_mem _ before)
        simp only [goes, if_true] at first ⊢
        have up := gains_ancestorEdges visits named (ctx.allBeans.length + 2) [p.name, b.name]
          (room.advance first.toAdvances) first.settled finds (first.visited.subset met)
          ⟨_, found⟩ reaches
        refine (first.trans room.once up).congr fun e => ?_
        rw [edge_of_climbed_iff named finds parent found other]
        constructor
        · exact fun above => .inr ⟨parentLast, above⟩
        · rintro (direct | ⟨-, above⟩)
          · exact (edge_of_climbed_iff named finds parent found other).1 (.inl direct)
          · exact above

end Parts

/-! ## Walking a bean -/

section Expand

variable {rules : List InterceptorRule} {ctx : Context}

/-- **Walking a bean.**  Walking a bean that has just been met gains what is listed of it. -/
theorem gains_expand (named : ctx.IsNamed) (fuel : Nat) {w : Walk} {b : Bean}
    (room : (w.meet b).HasRoom ctx fuel) (settled : (w.meet b).IsSettled ctx)
    (finds : ctx.Finds b) :
    (w.meet b).Gains rules ctx b (Owns rules ctx (b.id :: w.visited) b)
      (expand rules ctx fuel (w.meet b) b) := by
  induction fuel generalizing w b with
  | zero => exact absurd rfl room.ne_zero
  | succ fuel ih =>
    have visits : VisitsGaining rules ctx fuel b fun (w : Walk) (t : Bean) =>
        if t.id ∈ w.visited then w
        else expand rules ctx fuel { w with visited := t.id :: w.visited } t := by
      constructor
      · intro w t _ findsT new room settled
        simp only [new, if_false]
        exact advances_expand fuel room settled findsT List.mem_cons_self
      · intro w t findsT new room settled
        simp only [new, if_false]
        exact ih room settled findsT
    have isMerged : ∀ l ∈ (beanLinks rules ctx b (merged ctx b)).1, ∀ e,
        edgeOf? ctx b l = some e → e ∈ mergedEdges rules ctx b := fun l hl e made =>
      List.mem_append_left _ (List.mem_filterMap.2 ⟨l, List.mem_append_right _ hl, made⟩)
    unfold expand
    -- The four stages gain the edges to ancestors, those of the other links, and those credited.
    have up := gains_parentEdges visits named room settled finds
    have upAsked := up.trans room.once (gains_ask rules b up.settled (ancestorsAsked ctx b))
    have met := upAsked.visited.subset (List.mem_cons_self (a := b.id) (l := w.visited))
    have linked := upAsked.trans room.once
      (gains_follows visits named (beanLinks rules ctx b (merged ctx b)).1
        (room.advance upAsked.toAdvances) upAsked.settled finds met isMerged)
    have asked := linked.trans room.once
      (gains_ask rules b linked.settled (beanLinks rules ctx b (merged ctx b)).2)
    have credited := asked.trans room.once
      (gains_creditAll rules named b.nest.inner asked.settled finds
        (linked.visited.subset List.mem_cons_self))
    refine credited.congr fun e => ?_
    simp only [owns_iff, mem_mergedEdges_iff, or_false, or_assoc]
    exact or_congr_right (or_comm.trans or_assoc)

end Expand

end Walk

end BeanWiring
