/-
# Walks as lists of tasks

A walk told without any bound: a list of tasks, of which the first is always done next and may put
further tasks in front of the others.  To visit a bean that is met for the first time is to collect
its references; a run of a list of tasks keeps a log of the beans that it does this for.  A direct
walk collects the references of a bean in one step, as it does not go on from their targets.  Inner
beans are walked on their own, within the step that credits what is found in them.

Main statements:

* `Run.unique` : what a list of tasks comes to is determined by it;
* `Task.collects_step`, `Run.collects` : a step, and so a run, collects the references of no bean
  twice and records no edge from a bean as a whole to itself.
-/
import BeanWiring.Proofs.Reference.Deep

namespace BeanWiring

namespace Walk

/-! ## Tasks -/

/-- What is left to do on a walk. -/
inductive Task where
  /-- Collect the references of a bean, unless it was met before. -/
  | visit (bean : Bean)
  /-- Note names that are looked up on the side. -/
  | ask (names : List String)
  /-- Record the edge of a link. -/
  | follow (source : Bean) (link : Link)
  /-- Record the edge of a bean to its parent. -/
  | inherit (bean : Bean)
  /-- Record the edges of a bean to the ancestors above `current`. -/
  | climb (source : Bean) (followed : List String) (current : Bean)
  /-- Credit what the walks over the inner beans of a bean find. -/
  | credit (bean : Bean)

/-- What a task comes to in one step. -/
structure Progress where
  /-- What is to be done before all other tasks. -/
  tasks : List Task := []
  walk : Walk
  /-- The bean whose references are collected from here on. -/
  collected : List BeanId := []

section Steps

variable (rules : List InterceptorRule) (ctx : Context) (deep : Bool)

/-- The tasks that collect the references of a bean: those to its ancestors, those of its links, and
those of its inner beans. -/
def collect (b : Bean) : List Task :=
  let (links, asked) := beanLinks rules ctx b (merged ctx b)
  [.inherit b, .ask (ancestorsAsked ctx b)] ++ links.map (.follow b) ++ [.ask asked, .credit b]

/-- Records the edge from a part of a bean to the bean that a name stands for.  What is left to do
depends on whether the target is to be walked as well. -/
def record (kind : ReferenceKind) (source : Bean) (member : Member) (name : String)
    (left : (target : Bean) → (expand : Bool) → List Task) (w : Walk) : Progress :=
  let w := w.ask [name]
  match ctx.resolve? name with
  | none => { walk := w }
  | some target =>
    let (w, expand) := w.add ctx kind source member target
    { tasks := left target expand, walk := w }

/-- One step of a walk. -/
def Task.step : Task → Walk → Progress
  | visit b, w =>
    if b.id ∈ w.visited then { walk := w }
    else if deep then
      { tasks := collect rules ctx b, walk := w.meet b, collected := [b.id] }
    else { walk := visitDirect rules ctx w b, collected := [b.id] }
  | ask names, w => { walk := w.ask names }
  | follow source l, w =>
    record ctx l.reference.kind source l.member l.reference.beanName
      (fun target expand => if expand && deep then [visit target] else []) w
  | inherit b, w =>
    match b.parent with
    | none => { walk := w }
    | some name =>
      record ctx .parent b .bean name (fun p expand =>
        if expand && deep then [visit p, climb b [p.name, b.name] p] else []) w
  | climb source followed current, w =>
    match current.parent with
    | none => { walk := w }
    | some name =>
      if name ∈ followed then { walk := w }
      else
        record ctx .parent source .bean name (fun next expand =>
          (if expand && deep then [visit next] else []) ++
            [climb source (name :: followed) next]) w
  | credit b, w => { walk := creditAll rules ctx b w b.nest.inner }

/-- The tasks that a walk from an element starts with. -/
def tasksOf : ReferenceElement → List Task
  | .bean b => [.visit b]
  | .argument b position => (argumentLinks b position).map (.follow b)
  | .property b name =>
    match b.property? name with
    | none => []
    | some p =>
      let (links, asked) := propertyLinks rules ctx b p
      .ask asked :: links.map (.follow b)
  | .component c => c.allBeans.map .visit

/-- Doing all tasks takes the first walk to the second.  In between the references of the beans of
`collected` are collected, in this order. -/
inductive Run : List Task → Walk → (collected : List BeanId) → Walk → Prop
  | done {w : Walk} : Run [] w [] w
  | step {t : Task} {ts : List Task} {w w' : Walk} {collected : List BeanId}
      (rest : Run ((t.step rules ctx deep w).tasks ++ ts) (t.step rules ctx deep w).walk
        collected w') :
      Run (t :: ts) w ((t.step rules ctx deep w).collected ++ collected) w'

end Steps

section Runs

variable {rules : List InterceptorRule} {ctx : Context} {deep : Bool} {t : Task}
  {ts us : List Task} {w w' w'' : Walk} {collected collected' : List BeanId}

/-- Where tasks lead is determined by where they start. -/
theorem Run.unique (h : Run rules ctx deep ts w collected w')
    (h' : Run rules ctx deep ts w collected' w'') : collected = collected' ∧ w' = w'' := by
  induction h generalizing collected' w'' with
  | done =>
    cases h'
    exact ⟨rfl, rfl⟩
  | step _ ih =>
    cases h' with
    | step rest =>
      obtain ⟨rfl, rfl⟩ := ih rest
      exact ⟨rfl, rfl⟩

/-- Runs in a row collect in a row. -/
theorem Run.append (first : Run rules ctx deep ts w collected w')
    (second : Run rules ctx deep us w' collected' w'') :
    Run rules ctx deep (ts ++ us) w (collected ++ collected') w'' := by
  induction first with
  | done => exact second
  | step _ ih =>
    have rest := ih second
    rw [List.append_assoc] at rest
    rw [List.append_assoc]
    exact .step rest

end Runs

/-! ## What a run collects -/

/-- From one walk to another, the beans of `collected` are met, none of them twice and none that was
met before, and no edge from a bean as a whole to itself is recorded. -/
structure Collects (w : Walk) (collected : List BeanId) (w' : Walk) : Prop where
  visited : w'.visited = collected.reverse ++ w.visited
  once : collected.Nodup
  new : ∀ id ∈ collected, id ∉ w.visited
  edges : ∀ e ∈ w'.edges.toList,
    e ∈ w.edges.toList ∨ ¬(e.member = .bean ∧ e.source.id = e.target.id)

section Collects

variable {rules : List InterceptorRule} {ctx : Context} {w w' w'' : Walk}
  {collected collected' : List BeanId}

/-- What is collected in a row is collected altogether. -/
theorem Collects.trans (first : w.Collects collected w') (second : w'.Collects collected' w'') :
    w.Collects (collected ++ collected') w'' where
  visited := by
    rw [second.visited, first.visited, List.reverse_append, List.append_assoc]
  once := by
    refine List.nodup_append.2 ⟨first.once, second.once, ?_⟩
    rintro id before _ again rfl
    apply second.new id again
    rw [first.visited]
    exact List.mem_append_left _ (List.mem_reverse.2 before)
  new := by
    intro id there before
    rcases List.mem_append.1 there with there | there
    · exact first.new id there before
    · apply second.new id there
      rw [first.visited]
      exact List.mem_append_right _ before
  edges := by
    intro e he
    rcases second.edges e he with between | other
    · exact first.edges e between
    · exact Or.inr other

/-- A step that meets no bean. -/
theorem Collects.of_visited_eq (same : w'.visited = w.visited)
    (edges : ∀ e ∈ w'.edges.toList,
      e ∈ w.edges.toList ∨ ¬(e.member = .bean ∧ e.source.id = e.target.id)) :
    w.Collects [] w' :=
  ⟨same, List.nodup_nil, nofun, edges⟩

theorem Collects.refl (w : Walk) : w.Collects [] w :=
  .of_visited_eq rfl fun _ => Or.inl

theorem Collects.ask (w : Walk) (names : List String) : w.Collects [] (w.ask names) :=
  .of_visited_eq rfl fun _ => Or.inl

/-- An edge that is added meets no bean. -/
theorem Collects.add (ctx : Context) (w : Walk) (kind : ReferenceKind) (source : Bean)
    (member : Member) (target : Bean) : w.Collects [] (w.add ctx kind source member target).1 := by
  unfold Walk.add
  split
  · exact .refl w
  · rename_i other
    refine .of_visited_eq rfl fun e he => ?_
    rcases EdgeSet.mem_or_eq_of_mem_insert he with before | rfl
    · exact Or.inl before
    · exact Or.inr other

/-- A bean that is met for the first time is collected. -/
theorem Collects.meet {b : Bean} (new : b.id ∉ w.visited) : w.Collects [b.id] (w.meet b) where
  visited := rfl
  once := List.nodup_singleton _
  new := by
    intro id hid
    rw [List.mem_singleton.1 hid]
    exact new
  edges := fun _ => Or.inl

/-- A credited edge leads away from the bean that it is credited to. -/
theorem not_self_of_mem_creditedEdges {b : Bean} {nests : List Nest} {e : Reference}
    (h : e ∈ creditedEdges rules ctx b nests) : e.source.id ≠ e.target.id := by
  obtain ⟨n, -, credited⟩ := List.mem_flatMap.1 h
  obtain ⟨inside, kept, rfl⟩ := List.mem_map.1 credited
  have other := (List.mem_filter.1 kept).2
  exact fun same => of_decide_eq_true other same.symm

/-- Crediting meets no bean. -/
theorem Collects.creditAll (rules : List InterceptorRule) (ctx : Context) (b : Bean) (w : Walk)
    (nests : List Nest) : w.Collects [] (creditAll rules ctx b w nests) := by
  refine .of_visited_eq (visited_creditAll b w nests) fun e he => ?_
  rw [edges_creditAll] at he
  rcases EdgeSet.mem_or_mem_of_mem_foldl_insert he with before | credited
  · exact Or.inl before
  · exact Or.inr fun self => not_self_of_mem_creditedEdges credited self.2

/-- A direct edge of a bean as a whole leads away from it. -/
theorem not_self_of_mem_directEdges {b : Bean} {e : Reference}
    (h : e ∈ directEdges rules ctx b) : ¬(e.member = .bean ∧ e.source.id = e.target.id) := by
  rcases List.mem_append.1 h with link | credited
  · obtain ⟨l, -, made⟩ := List.mem_filterMap.1 link
    obtain ⟨-, other, edge⟩ := edgeOf?_eq_some made
    rw [edge]
    exact other
  · exact fun self => not_self_of_mem_creditedEdges credited self.2

/-- A direct visit meets its bean and no other. -/
theorem Collects.visitDirect (rules : List InterceptorRule) (ctx : Context) {b : Bean}
    (new : b.id ∉ w.visited) : w.Collects [b.id] (visitDirect rules ctx w b) := by
  rw [BeanWiring.visitDirect, if_neg new]
  refine ⟨rfl, List.nodup_singleton _, (Collects.meet new).new, fun e he => ?_⟩
  rcases EdgeSet.mem_or_mem_of_mem_foldl_insert he with before | found
  · exact Or.inl before
  · rw [edges_directWalk] at found
    rcases EdgeSet.mem_or_mem_of_mem_foldl_insert found with none | direct
    · cases none
    · exact Or.inr (not_self_of_mem_directEdges direct)

end Collects

section Steps

variable {rules : List InterceptorRule} {ctx : Context} {deep : Bool} {ts : List Task}
  {w w' : Walk} {collected : List BeanId}

/-- To record the edge to what a name stands for meets no bean. -/
theorem collects_record (kind : ReferenceKind) (source : Bean) (member : Member) (name : String)
    (left : Bean → Bool → List Task) :
    w.Collects (record ctx kind source member name left w).collected
      (record ctx kind source member name left w).walk := by
  have asks := Collects.ask w [name]
  unfold record
  cases ctx.resolve? name with
  | none => exact asks
  | some target => exact asks.trans (.add ctx _ kind source member target)

/-- **Step.**  A step collects the references of a bean that was not met before, or of none. -/
theorem Task.collects_step (t : Task) :
    w.Collects (t.step rules ctx deep w).collected (t.step rules ctx deep w).walk := by
  cases t with
  | visit b =>
    rw [step]
    split
    · exact .refl w
    · rename_i new
      split
      · exact .meet new
      · exact .visitDirect rules ctx new
  | ask names => exact .ask w names
  | follow source l => exact collects_record ..
  | inherit b =>
    rw [step]
    split
    · exact .refl w
    · exact collects_record ..
  | climb source followed current =>
    rw [step]
    split
    · exact .refl w
    · split
      · exact .refl w
      · exact collects_record ..
  | credit b => exact .creditAll rules ctx b w _

/-- **Run.**  A run collects the references of no bean twice. -/
theorem Run.collects (h : Run rules ctx deep ts w collected w') : w.Collects collected w' := by
  induction h with
  | done => exact .refl _
  | @step t _ _ _ _ _ ih => exact (t.collects_step).trans ih

end Steps

end Walk

end BeanWiring
