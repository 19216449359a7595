/-
# Answers

What a question to a config answers, and what has been read afterwards.  The answer is that for
the tree of the config, however much of the tree was tried for it; and the first configs of the
tree, as many as the question needs, have been read.

Main statements:

* `run_askTree` : what a question answers, and what it reads;
* `exists_firstRead` : the configs that are read for a question are the first of the tree;
* `FirstRead.listing` : these configs are the beginning of the listing of the tree.
-/
import BeanWiring.Proofs.Config.Listing
import BeanWiring.Proofs.Workspace.Foresight
import BeanWiring.Proofs.Workspace.Queries

namespace BeanWiring.Workspace

variable {σ : Type}

/-! ## Questions to listings -/

/-- A question that is answered from the listing of a tree: it seeks the first entry that has
something, and entries after the first do not matter. -/
structure AnsweredBy {α : Type} (question : ConfigTree → α × Need)
    (answer : List (Contents Empty) → α) (seeks : Contents Empty → Bool) : Prop where
  answers : ∀ t, (question t).1 = answer t.listing
  reach : ∀ t, (question t).2.reach t = ConfigTree.searched seeks t.listing
  isMetBy : ∀ t, (question t).2.isMetBy t = t.listing.any seeks
  settled : ∀ front back, front.any seeks = true → answer (front ++ back) = answer front

/-- The entries that are searched make the answer. -/
theorem AnsweredBy.answer_take {α : Type} {question : ConfigTree → α × Need}
    {answer : List (Contents Empty) → α} {seeks : Contents Empty → Bool}
    (h : AnsweredBy question answer seeks) (listing : List (Contents Empty)) :
    answer (listing.take (ConfigTree.searched seeks listing)) = answer listing := by
  obtain ⟨count, searched⟩ : ∃ n, ConfigTree.searched seeks listing = n := ⟨_, rfl⟩
  have split := List.take_append_drop count listing
  have le : ConfigTree.searched seeks (listing.take count ++ listing.drop count)
      ≤ (listing.take count).length := by
    rw [split, searched, List.length_take, ← searched]
    exact Nat.le_min.2 ⟨Nat.le_refl _, Nat.min_le_right _ _⟩
  rw [searched]
  rcases ConfigTree.any_or_nil_of_searched_le le with found | all
  · have settled := h.settled _ (listing.drop count) found
    rw [split] at settled
    exact settled.symm
  · rw [all, List.append_nil] at split
    rw [split]

/-- A question that needs everything seeks what no entry has. -/
theorem answeredBy_everything {α : Type} {answer : ConfigTree → α}
    {ofListing : List (Contents Empty) → α} (same : ∀ t, answer t = ofListing t.listing) :
    AnsweredBy (fun t => (answer t, .everything)) ofListing fun _ => false where
  answers := same
  reach := by
    intro t
    rw [ConfigTree.searched_false, ConfigTree.length_listing]
    rfl
  isMetBy := fun _ => (List.any_eq_false.2 fun _ _ => Bool.false_ne_true).symm
  settled := by
    intro front _ found
    obtain ⟨_, _, holds⟩ := List.any_eq_true.1 found
    cases holds

/-- A question for all that the entries have. -/
theorem answeredBy_flatMap {A : Type} (f : Contents Empty → List A) :
    AnsweredBy (fun t => (t.nodes.flatMap fun node => f node.contents.own, .everything))
      (List.flatMap f) fun _ => false :=
  answeredBy_everything fun t => t.flatMap_nodes f

/-- A question for the first entry that has something. -/
theorem answeredBy_findSome? {A : Type} {question : ConfigTree → Option A × Need}
    (find : Contents Empty → Option A)
    (answers : ∀ t, (question t).1 = t.nodes.findSome? fun node => find node.contents.own)
    (reach : ∀ t, (question t).2.reach t
      = ConfigTree.reachAmong t.nodes fun c => (find c.own).isSome)
    (isMetBy : ∀ t, (question t).2.isMetBy t = (question t).1.isSome) :
    AnsweredBy question (List.findSome? find) fun entry => (find entry).isSome where
  answers := fun t => (answers t).trans (t.findSome?_nodes find)
  reach := fun t => (reach t).trans (t.reachAmong_nodes fun entry => (find entry).isSome)
  isMetBy := by
    intro t
    rw [isMetBy, answers, t.findSome?_nodes find, ConfigTree.isSome_findSome?]
  settled := fun _ _ => ConfigTree.findSome?_append_of_any

/-- The question for a bean of a name. -/
theorem answeredBy_bean? (name : String) :
    AnsweredBy (fun t => (t.toContext.bean? name, .bean name))
      (List.findSome? fun entry => entry.bean? name) fun entry => (entry.bean? name).isSome := by
  refine answeredBy_findSome? (fun entry => entry.bean? name) ?_ (fun _ => rfl) ?_
  · exact fun t => t.bean?_toContext name
  · exact fun t => congrArg Option.isSome (t.bean?_toContext name).symm

/-- The question for an alias of a name. -/
theorem answeredBy_aliasOf? (name : String) :
    AnsweredBy (fun t => (t.toContext.aliasOf? name, .aliasing name))
      (List.findSome? fun entry => entry.aliasOf? name)
      fun entry => (entry.aliasOf? name).isSome := by
  refine answeredBy_findSome? (fun entry => entry.aliasOf? name) ?_ (fun _ => rfl) ?_
  · exact fun t => t.aliasOf?_toContext name
  · exact fun t => congrArg Option.isSome (t.aliasOf?_toContext name).symm

/-- A question whether some entry has something. -/
theorem answeredBy_any {question : ConfigTree → Bool × Need} (p : Contents Empty → Bool)
    (answers : ∀ t, (question t).1 = t.nodes.any fun node => p node.contents.own)
    (reach : ∀ t, (question t).2.reach t = ConfigTree.reachAmong t.nodes fun c => p c.own)
    (isMetBy : ∀ t, (question t).2.isMetBy t = (question t).1) :
    AnsweredBy question (List.any · p) p where
  answers := fun t => (answers t).trans (t.any_nodes p)
  reach := fun t => (reach t).trans (t.reachAmong_nodes p)
  isMetBy := fun t => (isMetBy t).trans ((answers t).trans (t.any_nodes p))
  settled := fun _ _ => ConfigTree.any_append_of_any

/-! ## Reading the first configs of a tree -/

/-- The first configs of a worklist and of what they import, so many, have been read; what they
say, and what is left of the worklist. -/
inductive FirstRead (ws : Workspace σ) :
    (count : Nat) → List ConfigId → List (Contents Empty) → List ConfigId → Prop
  | enough (ids : List ConfigId) : FirstRead ws 0 ids [] ids
  | done (count : Nat) : FirstRead ws (count + 1) [] [] []
  | next {count : Nat} {id : ConfigId} {rest left : List ConfigId} {c : Contents ConfigId}
      {entries : List (Contents Empty)} (read : (ws.config id).contents = some c)
      (further : FirstRead ws count (c.importedConfigs ++ rest) entries left) :
      FirstRead ws (count + 1) (id :: rest) (c.own :: entries) left

variable {ws ws' : Workspace σ}

/-- What has been read stays so where the configs that have been read do. -/
theorem FirstRead.of_kept
    (kept : ∀ id c, (ws.config id).contents = some c → (ws'.config id).contents = some c)
    {count : Nat} {ids left : List ConfigId} {entries : List (Contents Empty)}
    (h : FirstRead ws count ids entries left) : FirstRead ws' count ids entries left := by
  induction h with
  | enough ids => exact .enough ids
  | done count => exact .done count
  | next read _ ih => exact .next (kept _ _ read) ih

/-- As many configs are read first as were wanted, or all of them. -/
theorem FirstRead.length {count : Nat} {ids left : List ConfigId}
    {entries : List (Contents Empty)} (h : FirstRead ws count ids entries left) :
    entries.length = count ∨ left = [] := by
  induction h with
  | enough ids => exact .inl rfl
  | done count => exact .inr rfl
  | next _ _ ih => exact ih.imp_left (congrArg (· + 1))

variable [DocumentSource σ]

/-- Reading for a question reads the first configs. -/
theorem exists_firstRead (count : Nat) {ids : List ConfigId} (h : ws.Wired)
    (known : ∀ id ∈ ids, ws.HasConfig id) :
    ∃ entries left, FirstRead ((readFirst count ids).run ws).2 count ids entries left := by
  induction count generalizing ws ids with
  | zero => exact ⟨[], ids, .enough ids⟩
  | succ count ih =>
    cases ids with
    | nil => exact ⟨[], [], .done count⟩
    | cons id rest =>
      have known' := known id List.mem_cons_self
      have first : Reads ws (ws.afterReading id) := (Reads.refl ws).read id known'
      have contents := contents_afterReading known'
      have wired := first.wired h
      have below : ∀ other ∈ ((readConfig id).run ws).1.importedConfigs ++ rest,
          (ws.afterReading id).HasConfig other := by
        intro other listed
        rcases List.mem_append.1 listed with listed | listed
        · exact (wired.imports id _ contents other listed).2.1
        · exact first.toExtends.hasConfig (known other (List.mem_cons_of_mem id listed))
      obtain ⟨entries, left, further⟩ := ih wired below
      have later := (reads_readFirst count wired below).toExtends.cells id
        (first.toExtends.hasConfig known')
      exact ⟨_, left, .next (later.contents _ contents) further⟩

/-! ## Listings -/

/-- The listing of the trees of some configs. -/
def listings (ws : Workspace σ) (ids : List ConfigId) : List (Contents Empty) :=
  ids.flatMap fun id => (ws.tree id).listing

theorem listings_nil (ws : Workspace σ) : ws.listings [] = [] := rfl

theorem listings_singleton (ws : Workspace σ) (id : ConfigId) :
    ws.listings [id] = (ws.tree id).listing :=
  List.flatMap_singleton _ _

/-- Only where there are no configs there is nothing to list. -/
theorem eq_nil_of_listings {ids : List ConfigId} (none : ws.listings ids = []) : ids = [] := by
  cases ids with
  | nil => rfl
  | cons id rest =>
    rw [Workspace.listings, List.flatMap_cons, List.append_eq_nil_iff] at none
    exact absurd none.1 (ConfigTree.listing_ne_nil _)

variable [FiniteSource σ]

/-- The listing of a config that was read goes on with those of the configs that it imports. -/
theorem listing_of_read (wired : ws.Wired) {id : ConfigId} {c : Contents ConfigId}
    (read : (ws.config id).contents = some c) :
    (ws.tree id).listing = c.own :: ws.listings c.importedConfigs := by
  rw [tree_of_read wired read, ConfigTree.listing_eq]
  show _ :: (c.mapTargets ws.tree).importedConfigs.flatMap _ = _
  rw [Contents.importedConfigs_mapTargets, List.flatMap_map]
  rfl

/-- The first configs are the beginning of the listing. -/
theorem FirstRead.listings (wired : ws.Wired) {count : Nat} {ids left : List ConfigId}
    {entries : List (Contents Empty)} (h : FirstRead ws count ids entries left) :
    ws.listings ids = entries ++ ws.listings left := by
  induction h with
  | enough ids => rfl
  | done count => rfl
  | @next count id rest left c entries read _ ih =>
    rw [Workspace.listings, List.flatMap_cons, listing_of_read wired read, List.cons_append,
      List.cons_append, ← ih, Workspace.listings, Workspace.listings, List.flatMap_append]

/-- Reading other configs changes no listing. -/
theorem Reads.listings (h : Reads ws ws') (wired : ws.Wired) {ids : List ConfigId}
    (known : ∀ id ∈ ids, ws.HasConfig id) : ws'.listings ids = ws.listings ids := by
  refine List.flatMap_congr fun id listed => ?_
  rw [(foretells_of_reads h wired).tree wired (h.wired wired) (known id listed)]

/-! ## Reading with little room -/

/-- Reads what an import leads to, as long as there is room for configs. -/
def readTarget (depth : Nat) :
    Option ConfigId → StateT Nat (StateM (Workspace σ)) (Option ConfigTree)
  | some id => readPart depth id
  | none => return none

/-- The outcome of `action` with so much room. -/
def outcome {A : Type} (action : StateT Nat (StateM (Workspace σ)) A) (room : Nat)
    (ws : Workspace σ) : (A × Nat) × Workspace σ :=
  (action.run room).run ws

omit [FiniteSource σ] in
/-- A part of a tree is read in two steps: its config, and then what this imports as far as there is
room. -/
theorem outcome_readPart_succ (ws : Workspace σ) (depth : Nat) (id : ConfigId) (room : Nat) :
    outcome (readPart (depth + 1) id) (room + 1) ws
      = let first := (readConfig id).run ws
        let targets := first.1.imports.map Import.target
        let below := outcome (targets.mapM (readTarget depth)) room first.2
        ((some ⟨(ws.config id).name, first.1.withTargets below.1.1⟩, below.1.2), below.2) :=
  rfl

omit [DocumentSource σ] [FiniteSource σ] in
/-- Of a list, the first is read with the room there is, and the rest with what is left of it. -/
theorem outcome_mapM_cons {A B : Type} (ws : Workspace σ)
    (f : A → StateT Nat (StateM (Workspace σ)) B) (x : A) (xs : List A) (room : Nat) :
    outcome ((x :: xs).mapM f) room ws
      = let first := outcome (f x) room ws
        let others := outcome (xs.mapM f) first.1.2 first.2
        ((first.1.1 :: others.1.1, others.1.2), others.2) := by
  rw [List.mapM_cons]
  rfl

/-- Configs were read where there was room for a part of a listing. -/
structure ReadsPart (ws : Workspace σ) (full : List (Contents Empty)) (room : Nat)
    (parts : List (Option ConfigTree)) (left : Nat) (ws' : Workspace σ) : Prop where
  reads : Reads ws ws'
  left : left = room - full.length
  listing : (parts.filterMap id).flatMap ConfigTree.listing = full.take room

omit [FiniteSource σ] in
theorem ReadsPart.cons {ws'' : Workspace σ} {full others : List (Contents Empty)}
    {room left left' : Nat} {part : Option ConfigTree} {parts : List (Option ConfigTree)}
    (first : ReadsPart ws full room [part] left ws')
    (rest : ReadsPart ws' others left parts left' ws'') :
    ReadsPart ws (full ++ others) room (part :: parts) left' ws'' where
  reads := first.reads.trans rest.reads
  left := by
    rw [rest.left, first.left, List.length_append]
    omega
  listing := by
    have split : (part :: parts).filterMap id = [part].filterMap id ++ parts.filterMap id := by
      rw [← List.filterMap_append]
      rfl
    rw [split, List.flatMap_append, first.listing, rest.listing, first.left, List.take_append]

/-- Imports are read as long as there is room, one after the other. -/
theorem readsPart_mapM {bound depth : Nat} (wired : ws.Wired) (bounds : Bounds ws.source bound)
    (step : ∀ ws : Workspace σ, ws.Wired → Bounds ws.source bound → ∀ id,
      ws.FitsWithin bound depth id → ∀ room,
        let result := outcome (readPart depth id) room ws
        ReadsPart ws (ws.listings [id]) room [result.1.1] result.1.2 result.2)
    {targets : List (Option ConfigId)}
    (fits : ∀ id, some id ∈ targets → ws.FitsWithin bound depth id) (room : Nat) :
    let result := outcome (targets.mapM (readTarget depth)) room ws
    result.1.1.length = targets.length ∧
      ReadsPart ws (ws.listings (targets.filterMap id)) room result.1.1 result.1.2 result.2 := by
  induction targets generalizing ws room with
  | nil => exact ⟨rfl, .refl ws, (Nat.sub_zero room).symm, List.take_nil.symm⟩
  | cons target rest ih =>
    have first : ReadsPart ws (ws.listings target.toList) room
        [(outcome (readTarget depth target) room ws).1.1]
        (outcome (readTarget depth target) room ws).1.2
        (outcome (readTarget depth target) room ws).2 := by
      cases target with
      | none => exact ⟨.refl ws, (Nat.sub_zero room).symm, List.take_nil.symm⟩
      | some id => exact step ws wired bounds id (fits id List.mem_cons_self) room
    have fits' : ∀ id, some id ∈ rest →
        (outcome (readTarget depth target) room ws).2.FitsWithin bound depth id :=
      fun id listed => first.reads.fitsWithin wired bounds
        (fits id (List.mem_cons_of_mem _ listed))
    obtain ⟨length, others⟩ := ih (first.reads.wired wired)
      (first.reads.toExtends.source ▸ bounds) fits'
      (outcome (readTarget depth target) room ws).1.2
    rw [first.reads.listings wired fun id listed => by
      obtain ⟨_, there, rfl⟩ := List.mem_filterMap.1 listed
      exact (fits id (List.mem_cons_of_mem _ there)).hasConfig] at others
    rw [outcome_mapM_cons]
    refine ⟨congrArg (· + 1) length, ?_⟩
    have split : ws.listings ((target :: rest).filterMap id)
        = ws.listings target.toList ++ ws.listings (rest.filterMap id) := by
      rw [Workspace.listings, Workspace.listings, Workspace.listings, ← List.flatMap_append]
      cases target <;> rfl
    rw [split]
    exact first.cons others

/-- The first configs of a tree are read, as many as there is room for. -/
theorem readsPart_readPart {bound depth : Nat} (wired : ws.Wired)
    (bounds : Bounds ws.source bound) {id : ConfigId} (fits : ws.FitsWithin bound depth id)
    (room : Nat) :
    let result := outcome (readPart depth id) room ws
    ReadsPart ws (ws.listings [id]) room [result.1.1] result.1.2 result.2 := by
  induction depth generalizing ws id room with
  | zero => exact fits.elim
  | succ depth ih =>
    cases room with
    | zero => exact ⟨.refl ws, (Nat.zero_sub _).symm, List.take_zero.symm⟩
    | succ room =>
      -- The config takes the first place, what it imports takes those that are left.
      have known := fits.hasConfig
      have first : Reads ws (ws.afterReading id) := (Reads.refl ws).read id known
      have contents := contents_afterReading known
      have fits' : ∀ t, some t ∈ ((readConfig id).run ws).1.imports.map Import.target →
          (ws.afterReading id).FitsWithin bound depth t := fun t imported =>
        (first.fitsWithin wired bounds fits).2.1 _ contents t
          (Contents.mem_importedConfigs.2 imported)
      obtain ⟨length, below⟩ := readsPart_mapM (first.wired wired)
        (first.toExtends.source ▸ bounds) (fun _ wired bounds _ fits room =>
          ih wired bounds fits room) fits' room
      rw [← Contents.importedConfigs_eq] at below
      have full : ws.listings [id] = ((readConfig id).run ws).1.own ::
          (ws.afterReading id).listings ((readConfig id).run ws).1.importedConfigs := by
        rw [← first.listings wired fun _ listed => List.mem_singleton.1 listed ▸ known,
          listings_singleton, listing_of_read (first.wired wired) contents]
      rw [outcome_readPart_succ, full]
      refine ⟨first.trans below.reads, ?_, ?_⟩
      · rw [List.length_cons, Nat.add_sub_add_right]
        exact below.left
      · rw [List.take_succ_cons, ← below.listing]
        have targets := Contents.importedConfigs_withTargets _
          (length.trans (List.length_map _))
        show (ConfigTree.mk _ _).listing ++ [] = _
        rw [List.append_nil, ConfigTree.listing_eq]
        exact congrArg (fun ts => _ :: List.flatMap ConfigTree.listing ts) targets

/-! ## Answers -/

section Answer

variable {α : Type} {question : ConfigTree → α × Need} {answer : List (Contents Empty) → α}
  {seeks : Contents Empty → Bool} {id : ConfigId}

/-- What is answered from the first configs of a tree is the answer. -/
theorem answerWithin_eq (wired : ws.Wired) (known : ws.HasConfig id)
    (h : AnsweredBy question answer seeks) {room : Nat} {result : α × Nat}
    (answered : ws.answerWithin id question room = some result) :
    result = (answer (ws.tree id).listing, ConfigTree.searched seeks (ws.tree id).listing) := by
  have part := readsPart_readPart wired (FiniteSource.bounds_reach ws.source _)
    (fitsWithin_depthBound wired known) room
  rw [listings_singleton] at part
  unfold answerWithin at answered
  obtain ⟨⟨⟨tree, left⟩, ws'⟩, outcome_eq⟩ :
      ∃ r, outcome (readPart (ws.depthBound id) id) room ws = r := ⟨_, rfl⟩
  rw [outcome_eq] at part
  rw [show ((readPart (ws.depthBound id) id).run room).run ws = _ from outcome_eq] at answered
  cases tree with
  | none => cases answered
  | some t =>
    have listing : t.listing = (ws.tree id).listing.take room := by
      rw [← part.listing]
      exact (List.append_nil _).symm
    dsimp only at answered
    split at answered
    · rename_i enough
      cases Option.some.inj answered
      rw [h.answers, h.reach, listing]
      have room_left : left = room - (ws.tree id).listing.length := part.left
      rw [h.isMetBy, listing, Bool.or_eq_true, decide_eq_true_iff] at enough
      rcases enough with all | found
      · rw [List.take_of_length_le (by omega)]
      · -- What was sought is among the first configs, so the others do not matter.
        have answers := h.settled _ ((ws.tree id).listing.drop room) found
        have reach : ConfigTree.searched seeks
            ((ws.tree id).listing.take room ++ (ws.tree id).listing.drop room) = _ :=
          ConfigTree.searched_append found
        rw [List.take_append_drop] at answers reach
        rw [answers, reach]
    · cases answered

/-- A question is answered from the listing of the tree, and reads what it needs. -/
theorem run_askTree (wired : ws.Wired) (known : ws.HasConfig id)
    (h : AnsweredBy question answer seeks) :
    (askTree id question).run ws = (answer (ws.tree id).listing,
      ((readFirst (ConfigTree.searched seeks (ws.tree id).listing) [id]).run ws).2) := by
  have fromAll : ws.answerFromAll id question
      = (answer (ws.tree id).listing, ConfigTree.searched seeks (ws.tree id).listing) := by
    rw [← h.answers, ← h.reach]
    rfl
  rw [askTree, StateT.run_bind, StateT.run_get, pure_bind]
  cases found : trialRooms.findSome? (ws.answerWithin id question) with
  | none =>
    rw [fromAll]
    rfl
  | some result =>
    obtain ⟨room, -, answered⟩ := List.exists_of_findSome?_eq_some found
    rw [answerWithin_eq wired known h answered]
    rfl

/-- A question that is answered by the listing is answered as by the whole tree, although only a
part is read. -/
theorem answer_askTree (wired : ws.Wired) (known : ws.HasConfig id)
    (h : AnsweredBy question answer seeks) :
    ((askTree id question).run ws).1 = (question (ws.tree id)).1 := by
  rw [run_askTree wired known h, h.answers]

end Answer

end BeanWiring.Workspace
