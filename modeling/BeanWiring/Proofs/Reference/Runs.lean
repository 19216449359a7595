/-
# Every walk is a run

The functions of a walk are bounded by the number of beans in the context.  Each of them does what
its tasks come to, so the bound is never what ends it.  For walks over beans this is because a bean
that is visited joins those that were met; the beans of the context that are left to meet pay for
the walks that go on from them.  For the way up along parent names it is because a name that is
followed joins those that were followed; the beans whose parents are left to follow pay for it.

Main statements:

* `runs_ancestorEdges`, `runs_expand` : what the bounded walks come to, their tasks come to;
* `walk_terminates` : every walk is a finite run, which collects the references of no bean twice.
-/
import BeanWiring.Proofs.Reference.Tasks

namespace BeanWiring

/-! ## What is left of the context -/

/-- A condition that fewer entries meet, and one entry does not meet any more. -/
theorem countP_lt_countP {α : Type} {p q : α → Bool} {xs : List α} {x : α} (listed : x ∈ xs)
    (weaker : ∀ y ∈ xs, q y = true → p y = true) (before : p x = true) (after : q x = false) :
    xs.countP q < xs.countP p := by
  obtain ⟨front, back, rfl⟩ := List.append_of_mem listed
  have inFront : front.countP q ≤ front.countP p :=
    List.countP_mono_left fun y hy => weaker y (by simp [hy])
  have inBack : back.countP q ≤ back.countP p :=
    List.countP_mono_left fun y hy => weaker y (by simp [hy])
  simp only [List.countP_append, List.countP_cons, before, after, if_true, Bool.false_eq_true,
    if_false]
  omega

namespace Context

variable {ctx : Context} {met met' : List BeanId} {followed : List String} {b : Bean}

/-- The beans of a context that are left to meet. -/
def unmet (ctx : Context) (met : List BeanId) : Nat :=
  ctx.allBeans.countP fun b => b.id ∉ met

/-- The beans of a context whose parents are left to follow by name. -/
def unfollowed (ctx : Context) (followed : List String) : Nat :=
  ctx.allBeans.countP fun b => b.parent.any (· ∉ followed)

theorem unmet_le_of_subset (more : met ⊆ met') : ctx.unmet met' ≤ ctx.unmet met := by
  apply List.countP_mono_left
  intro b _ new
  exact decide_eq_true fun before => of_decide_eq_true new (more before)

/-- No more beans are left to be met than there are. -/
theorem unmet_le (ctx : Context) (met : List BeanId) : ctx.unmet met ≤ ctx.allBeans.length :=
  List.countP_le_length

/-- A bean that is met for the first time leaves fewer to meet. -/
theorem unmet_cons_lt (there : b ∈ ctx.allBeans) (new : b.id ∉ met) :
    ctx.unmet (b.id :: met) < ctx.unmet met := by
  apply countP_lt_countP there
  · intro c _ new'
    exact decide_eq_true fun before => of_decide_eq_true new' (List.mem_cons_of_mem _ before)
  · exact decide_eq_true new
  · exact decide_eq_false fun new' => new' List.mem_cons_self

/-- No more parents are left to be followed than there are beans. -/
theorem unfollowed_le (ctx : Context) (followed : List String) :
    ctx.unfollowed followed ≤ ctx.allBeans.length :=
  List.countP_le_length

/-- A parent that is followed for the first time leaves fewer to follow. -/
theorem unfollowed_cons_lt {name : String} (there : b ∈ ctx.allBeans)
    (parent : b.parent = some name) (new : name ∉ followed) :
    ctx.unfollowed (name :: followed) < ctx.unfollowed followed := by
  apply countP_lt_countP there
  · intro c _ new'
    cases hc : c.parent with
    | none => simp [hc] at new'
    | some other =>
      simp only [hc, Option.any_some, List.mem_cons, not_or, decide_eq_true_eq] at new' ⊢
      exact new'.2
  · simpa [parent] using new
  · simp [parent]

end Context

namespace Walk

/-! ## Tasks that come to a walk -/

section Runs

variable {rules : List InterceptorRule} {ctx : Context} {deep : Bool} {t : Task}
  {ts us : List Task} {w w' w'' : Walk}

/-- Doing all tasks takes the first walk to the second. -/
def Runs (rules : List InterceptorRule) (ctx : Context) (deep : Bool) (ts : List Task)
    (w w' : Walk) : Prop :=
  ∃ collected, Run rules ctx deep ts w collected w'

theorem Runs.nil : Runs rules ctx deep [] w w := ⟨[], .done⟩

/-- Tasks run in two goes are run in one. -/
theorem Runs.append (first : Runs rules ctx deep ts w w') (second : Runs rules ctx deep us w' w'') :
    Runs rules ctx deep (ts ++ us) w w'' := by
  obtain ⟨collected, first⟩ := first
  obtain ⟨collected', second⟩ := second
  exact ⟨collected ++ collected', first.append second⟩

/-- A task comes to what the tasks come to that its first step leaves. -/
theorem Runs.step (rest : Runs rules ctx deep (t.step rules ctx deep w).tasks
    (t.step rules ctx deep w).walk w') : Runs rules ctx deep [t] w w' := by
  obtain ⟨collected, rest⟩ := rest
  rw [← List.append_nil (t.step rules ctx deep w).tasks] at rest
  exact ⟨_, .step rest⟩

theorem runs_ask (names : List String) : Runs rules ctx deep [.ask names] w (w.ask names) :=
  Runs.step (t := .ask names) .nil

/-- Crediting is one task: the walks over the nested beans are not part of the run. -/
theorem runs_credit {b : Bean} :
    Runs rules ctx deep [.credit b] w (creditAll rules ctx b w b.nest.inner) :=
  Runs.step (t := .credit b) .nil

/-- A bean that was met before does not come to be left again. -/
theorem Runs.unmet_le (h : Runs rules ctx deep ts w w') :
    ctx.unmet w'.visited ≤ ctx.unmet w.visited := by
  obtain ⟨collected, run⟩ := h
  apply Context.unmet_le_of_subset
  rw [run.collects.visited]
  exact List.subset_append_right _ _

end Runs

/-! ## The bounded walks -/

section Bounded

variable {rules : List InterceptorRule} {ctx : Context} {deep : Bool} {room : Nat}
  {visit : Walk → Bean → Walk} {w w' : Walk} {b : Bean}

/-- A way to go on from targets, where no more than `room` beans are left to meet: on a deep walk it
does what visiting them comes to, and on a direct one it does nothing. -/
def GoesOn (rules : List InterceptorRule) (ctx : Context) (deep : Bool) (room : Nat)
    (visit : Walk → Bean → Walk) : Prop :=
  ∀ w t, t ∈ ctx.allBeans → ctx.unmet w.visited ≤ room →
    Runs rules ctx deep (if deep then [.visit t] else []) w (visit w t)

/-- Recording an edge comes to what the tasks come to that it leaves. -/
theorem runs_record {kind : ReferenceKind} {source : Bean} {member : Member} {name : String}
    {left : Bean → Bool → List Task} (enough : ctx.unmet w.visited ≤ room)
    (missing : ctx.resolve? name = none → w' = w.ask [name])
    (rest : ∀ target, ctx.resolve? name = some target → ∀ v expand,
      (w.ask [name]).add ctx kind source member target = (v, expand) →
        ctx.unmet v.visited ≤ room → Runs rules ctx deep (left target expand) v w') :
    Runs rules ctx deep (record ctx kind source member name left w).tasks
      (record ctx kind source member name left w).walk w' := by
  unfold record
  cases found : ctx.resolve? name with
  | none =>
    rw [missing found]
    exact .nil
  | some target =>
    have same := (Collects.add ctx (w.ask [name]) kind source member target).visited
    rcases added : (w.ask [name]).add ctx kind source member target with ⟨v, expand⟩
    rw [added] at same
    simp only [added]
    apply rest target found v expand added
    rw [same]
    exact enough

/-- Following a link does what its task comes to. -/
theorem runs_follow (goesOn : GoesOn rules ctx deep room visit) (l : Link)
    (enough : ctx.unmet w.visited ≤ room) :
    Runs rules ctx deep [.follow b l] w (w.follow visit ctx b l) := by
  apply Runs.step
  refine runs_record enough (fun missing => ?_) fun target found v expand added enough => ?_
  · simp only [follow, missing]
  · have goes : w.follow visit ctx b l = if expand then visit v target else v := by
      simp only [follow, found, added]
    rw [goes]
    cases expand with
    | false => exact .nil
    | true => exact goesOn v target (Context.resolve?_mem found) enough

/-- Links are followed one after the other, as long as there is room for the beans that are left. -/
theorem runs_follows (goesOn : GoesOn rules ctx deep room visit) (links : List Link)
    (enough : ctx.unmet w.visited ≤ room) :
    Runs rules ctx deep (links.map (.follow b)) w (links.foldl (follow visit ctx b) w) := by
  induction links generalizing w with
  | nil => exact .nil
  | cons l links ih =>
    have first := runs_follow (b := b) goesOn l enough
    exact first.append (ih (Nat.le_trans first.unmet_le enough))

/-- Going up along parent names does what its task comes to: each name that is followed uses up a
bean whose parent was left to follow. -/
theorem runs_ancestorEdges (goesOn : GoesOn rules ctx true room visit) (fuel : Nat)
    {followed : List String} {current : Bean} (there : current ∈ ctx.allBeans)
    (fuelEnough : ctx.unfollowed followed < fuel) (enough : ctx.unmet w.visited ≤ room) :
    Runs rules ctx true [.climb b followed current] w
      (ancestorEdges visit ctx b fuel followed current w) := by
  induction fuel generalizing followed current w with
  | zero => exact absurd fuelEnough (Nat.not_lt_zero _)
  | succ fuel ih =>
    apply Runs.step
    cases parent : current.parent with
    | none =>
      simp only [Task.step, ancestorEdges, parent]
      exact .nil
    | some name =>
      by_cases again : name ∈ followed
      · simp only [Task.step, ancestorEdges, parent, again, if_true]
        exact .nil
      · simp only [Task.step, ancestorEdges, parent, again, if_false]
        refine runs_record enough (fun missing => ?_) fun next found v expand added enough => ?_
        · simp only [missing]
        · simp only [found, added, Bool.and_true]
          have inside := Context.resolve?_mem found
          have visits : Runs rules ctx true (if expand then [.visit next] else []) v
              (if expand then visit v next else v) := by
            cases expand with
            | false => exact .nil
            | true => exact goesOn v next inside enough
          have fewer := Context.unfollowed_cons_lt there parent again
          exact visits.append
            (ih inside (by omega) (Nat.le_trans visits.unmet_le enough))

/-- The edges to the parent and beyond come to what their task comes to. -/
theorem runs_parentEdges (goesOn : GoesOn rules ctx true room visit)
    (enough : ctx.unmet w.visited ≤ room) :
    Runs rules ctx true [.inherit b] w (parentEdges visit ctx b w) := by
  apply Runs.step
  cases parent : b.parent with
  | none =>
    simp only [Task.step, parentEdges, parent]
    exact .nil
  | some name =>
    simp only [Task.step, parentEdges, parent]
    refine runs_record enough (fun missing => ?_) fun p found v expand added enough => ?_
    · simp only [missing]
    · simp only [found, added, Bool.and_true]
      cases expand with
      | false => exact .nil
      | true =>
        have inside := Context.resolve?_mem found
        have visits : Runs rules ctx true [.visit p] v (visit v p) := goesOn v p inside enough
        have bound := ctx.unfollowed_le [p.name, b.name]
        exact visits.append (runs_ancestorEdges goesOn _ inside (by omega)
          (Nat.le_trans visits.unmet_le enough))

/-- Collecting the references of a bean does what its tasks come to: each bean that is met uses up
one that was left to meet. -/
theorem runs_expand (fuel : Nat) (enough : ctx.unmet w.visited < fuel) :
    Runs rules ctx true (collect rules ctx b) w (expand rules ctx fuel w b) := by
  induction fuel generalizing w b with
  | zero => exact absurd enough (Nat.not_lt_zero _)
  | succ fuel ih =>
    have goesOn : GoesOn rules ctx true fuel fun (w : Walk) (t : Bean) =>
        if t.id ∈ w.visited then w
        else expand rules ctx fuel { w with visited := t.id :: w.visited } t := by
      intro w t inside enough
      apply Runs.step
      by_cases before : t.id ∈ w.visited
      · simp only [Task.step, before, if_true]
        exact .nil
      · simp only [Task.step, before, if_false]
        exact ih (Nat.lt_of_lt_of_le (Context.unmet_cons_lt inside before) enough)
    have enough := Nat.le_of_lt_succ enough
    have toParent := runs_parentEdges (b := b) goesOn enough
    have asks := toParent.append (runs_ask (ancestorsAsked ctx b))
    have follows := asks.append (runs_follows (b := b) goesOn
      (beanLinks rules ctx b (merged ctx b)).1 (Nat.le_trans asks.unmet_le enough))
    unfold expand
    exact follows.append ((runs_ask _).append runs_credit)

/-- Visiting a bean on a deep walk does what its task comes to. -/
theorem runs_visitDeep (w : Walk) (b : Bean) :
    Runs rules ctx true [.visit b] w (visitDeep rules ctx w b) := by
  apply Runs.step
  unfold visitDeep
  by_cases before : b.id ∈ w.visited
  · simp only [Task.step, before, if_true]
    exact .nil
  · simp only [Task.step, before, if_false]
    have bound := ctx.unmet_le (w.meet b).visited
    exact runs_expand _ (Nat.lt_of_le_of_lt bound (by omega))

/-- Visiting a bean on a direct walk is one step. -/
theorem runs_visitDirect (w : Walk) (b : Bean) :
    Runs rules ctx false [.visit b] w (visitDirect rules ctx w b) := by
  apply Runs.step
  unfold visitDirect
  by_cases before : b.id ∈ w.visited
  · simp only [Task.step, before, if_true]
    exact .nil
  · simp only [Task.step, visitDirect, before, if_false, Bool.false_eq_true]
    exact .nil

/-- Visiting beans one after the other does what their tasks come to. -/
theorem runs_visits (visits : ∀ w t, Runs rules ctx deep [.visit t] w (visit w t))
    (beans : List Bean) :
    Runs rules ctx deep (beans.map .visit) w (beans.foldl visit w) := by
  induction beans generalizing w with
  | nil => exact .nil
  | cons b beans ih => exact (visits w b).append ih

end Bounded

end Walk

/-! ## Walks from an element -/

section Elements

variable {rules : List InterceptorRule} {ctx : Context} {deep : Bool}

/-- A walk does what the tasks of its element come to. -/
theorem runs_walk (rules : List InterceptorRule) (ctx : Context) (deep : Bool)
    (element : ReferenceElement) :
    Walk.Runs rules ctx deep (Walk.tasksOf rules ctx element) {} (walk rules ctx deep element) := by
  have visits : ∀ w t, Walk.Runs rules ctx deep [.visit t] w
      ((if deep then visitDeep rules ctx else visitDirect rules ctx) w t) := by
    intro w t
    cases deep with
    | false => exact Walk.runs_visitDirect w t
    | true => exact Walk.runs_visitDeep w t
  have goesOn : Walk.GoesOn rules ctx deep ctx.allBeans.length
      (if deep then visitDeep rules ctx else fun w _ => w) := by
    intro w t _ _
    cases deep with
    | false => exact .nil
    | true => exact Walk.runs_visitDeep w t
  have enough : ∀ w : Walk, ctx.unmet w.visited ≤ ctx.allBeans.length := fun w => ctx.unmet_le _
  cases element with
  | bean b =>
    have start := visits {} b
    cases deep <;> exact start
  | argument b position => exact Walk.runs_follows goesOn _ (enough _)
  | property b name =>
    cases found : b.property? name with
    | none =>
      simp only [walk, Walk.tasksOf, found]
      exact .nil
    | some p =>
      simp only [walk, Walk.tasksOf, found]
      exact (Walk.runs_ask _).append (Walk.runs_follows goesOn _ (enough _))
  | component c => exact Walk.runs_visits visits _

/-- **Termination.**  From every element, along whatever cycles, the walk is a finite run of the
tasks of the element, and there is no other run.  The beans whose references it collects are those
it meets, none of them twice.  It returns no two edges of one key, and no edge that leads from a
bean as a whole to that same bean. -/
theorem walk_terminates (rules : List InterceptorRule) (ctx : Context) (deep : Bool)
    (element : ReferenceElement) :
    ∃ collected, Walk.Run rules ctx deep (Walk.tasksOf rules ctx element) {} collected
        (walk rules ctx deep element) ∧
      (∀ collected' w, Walk.Run rules ctx deep (Walk.tasksOf rules ctx element) {} collected' w →
        collected' = collected ∧ w = walk rules ctx deep element) ∧
      (walk rules ctx deep element).visited = collected.reverse ∧ collected.Nodup ∧
      ((references rules ctx deep element).map Reference.key).Nodup ∧
      ∀ e ∈ references rules ctx deep element, e.member = .bean → e.source.id ≠ e.target.id := by
  obtain ⟨collected, run⟩ := runs_walk rules ctx deep element
  have collects := run.collects
  refine ⟨collected, run, fun _ _ other => other.unique run, ?_, collects.once,
    (walk rules ctx deep element).edges.nodup, ?_⟩
  · rw [collects.visited, List.append_nil]
  · intro e he whole same
    rcases collects.edges e he with before | other
    · cases before
    · exact other ⟨whole, same⟩

end Elements

end BeanWiring
