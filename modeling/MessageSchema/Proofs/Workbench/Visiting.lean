import MessageSchema.Proofs.Workbench.Layout

namespace MessageSchema.Workbench

open List Option Array

/-!
Visiting definitions one after the other.

A visit changes nothing outside of its site, so the sites still to come are found
unchanged, and what was made of those before is kept.  One visit at a time is thus
enough to know what becomes of a list of sites that lie apart.
-/

/-! ### The stack -/

variable {visit : Key -> Work Unit}

section
variable {store after : Store} {runner key : Key}

lemma lt_size_of_stackOf {stack : List Key} (stacked : store.stackOf runner = key :: stack) :
    runner < store.runners.size := by
  refine Decidable.byContradiction fun outside => ?_
  rw [Store.stackOf, Store.runner, getD_eq_getD_getElem?,
    Array.getElem?_eq_none (Nat.not_lt.mp outside)] at stacked
  cases stacked

lemma runner_enter (inside : runner < store.runners.size) : (store.enter runner key).runner runner =
      { store.runner runner with stack := key :: store.stackOf runner } := by
  rw [Store.runner, getD_eq_getD_getElem?, Store.enter,
    getElem?_setIfInBounds_self_of_lt inside, getD_some]

lemma stackOf_enter (inside : runner < store.runners.size) :
    (store.enter runner key).stackOf runner = key :: store.stackOf runner := by
  rw [Store.stackOf, runner_enter inside]

variable {before : Store}

section
variable (same : after.equipment = before.equipment)
include same

lemma runner_of_equipment (runner : Key) : after.runner runner = before.runner runner :=
  congrArg (fun equipment => equipment.runners.getD runner default) same

lemma table_of_equipment (key : Key) : after.table key = before.table key :=
  congrArg (fun equipment => equipment.tables.getD key default) same

lemma aliasesAt_of_equipment (key : Key) : after.aliasesAt key = before.aliasesAt key :=
  congrArg (fun equipment => equipment.aliases.getD key default) same

lemma stackOf_of_equipment (runner : Key) : after.stackOf runner = before.stackOf runner := by
  rw [Store.stackOf, runner_of_equipment same, Store.stackOf]

lemma size_runners_of_equipment : after.runners.size = before.runners.size :=
  congrArg (fun equipment => equipment.runners.size) same

end

lemma persists_enter (store : Store) (runner key : Key) :
    Persists nowhere nowhere store (store.enter runner key) :=
  .of_equipment rfl rfl rfl

lemma persists_leave (store : Store) (runner : Key) :
    Persists nowhere nowhere store (store.leave runner) :=
  .of_equipment rfl rfl rfl

lemma setIfInBounds_getD {α : Type} (items : Array α) (index : Nat) (default : α) :
    items.setIfInBounds index (items.getD index default) = items := by
  apply Array.ext_getElem?
  intro place
  rw [getElem?_setIfInBounds, getD_eq_getD_getElem?]
  by_cases same : index = place
  · subst same
    by_cases inside : index < items.size
    · rw [if_pos rfl, if_pos inside, Array.getElem?_eq_getElem inside, getD_some]
    · rw [if_pos rfl, if_neg inside, Array.getElem?_eq_none (Nat.not_lt.mp inside)]
  · rw [if_neg same]

lemma runners_leave (same : after.runners = (store.enter runner key).runners) :
    (after.leave runner).runners = store.runners := by
  have entered : after.runner runner = (store.enter runner key).runner runner := by
    rw [Store.runner, same, Store.runner]
  by_cases inside : runner < store.runners.size
  · rw [Store.leave, Store.stackOf, entered, runner_enter inside, same]
    change (store.runners.setIfInBounds runner _).setIfInBounds runner (store.runner runner) = _
    rw [setIfInBounds_setIfInBounds]
    exact setIfInBounds_getD store.runners runner default
  · have outside := Nat.not_lt.mp inside
    have unchanged : (store.enter runner key).runners = store.runners :=
      setIfInBounds_eq_of_size_le outside
    rw [Store.leave, same, unchanged]
    exact setIfInBounds_eq_of_size_le outside

/-- A visit that leaves alone what a compilation works with does so together with
the change of the stack around it. -/
lemma equipment_leave (same : after.equipment = (store.enter runner key).equipment) :
    (after.leave runner).equipment = store.equipment := by
  rw [Store.equipment, Store.equipment, Store.Equipment.mk.injEq]
  exact ⟨congrArg Store.Equipment.tables same, congrArg Store.Equipment.references same,
    congrArg Store.Equipment.aliases same, runners_leave (congrArg Store.Equipment.runners same)⟩

/-- A way to leave alone what is not visited, with or without the change of the
stack around a visit. -/
structure Framing (frame : (Key -> Prop) -> (Key -> Prop) -> Store -> Store -> Prop) : Prop where
  alters : ∀ {nodes types before after}, frame nodes types before after ->
    Alters nodes types before after
  refl : ∀ nodes types store, frame nodes types store store
  trans : ∀ {nodes types before middle after}, frame nodes types before middle ->
    frame nodes types middle after -> frame nodes types before after
  mono : ∀ {nodes types nodes' types' before after}, frame nodes types before after ->
    (∀ key, nodes key -> nodes' key) -> (∀ key, types key -> types' key) ->
    frame nodes' types' before after
  leave : ∀ {nodes types store after runner key}, frame nodes types (store.enter runner key)
    after ->
    frame nodes types store (after.leave runner)

lemma framing_alters : Framing Alters where
  alters := id
  refl := Alters.refl
  trans := Alters.trans
  mono := Alters.mono
  leave {_ _ store after runner key} alters := by
    refine ⟨?_, equipment_leave alters.equipment⟩
    exact ((persists_enter store runner key).anywhere.trans alters.toPersists).trans
      (persists_leave after runner).anywhere

lemma Framing.follows_walk {frame : (Key -> Prop) -> (Key -> Prop) -> Store -> Store -> Prop}
    (framing : Framing frame) {γ : Type} {step : Except CompileError γ} {nodes types : Key -> Prop}
    {post : γ -> Store -> Prop}
    (lasting : ∀ result before after, Persists nowhere nowhere before after -> post result before ->
      post result after)
    (inside : Follows (visit key) (store.enter runner key) (fun _ result after =>
      post result after ∧ frame nodes types (store.enter runner key) after) step) :
    Follows (Workbench.walk runner visit key) store
      (fun _ result after => post result after ∧ frame nodes types store after) step := by
  refine .walk (inside.mono ?_)
  rintro _ result after ⟨holds, framed⟩
  exact ⟨lasting result _ _ (persists_leave after runner) holds, framing.leave framed⟩

end

section
variable {α β : Type} [Extent α] [Extent β]

/-- Something else in the same place. -/
def Site.put (site : Site α) (item : β) : Site β :=
  ⟨site.start, site.typeStart, item⟩

/-- Two things take up the same number of places. -/
structure SameExtent (item : α) (other : β) : Prop where
  nodes : Extent.nodes other = Extent.nodes item
  types : Extent.types other = Extent.types item

variable {items : List α} {item : β} {site : Site α} {shows : Store -> Site α -> Prop}
    {start typeStart : Nat} {shown : Store -> Site β -> Prop} {store : Store}

variable {change : α -> β} {key : Nat}

lemma nodesOf_map (same : ∀ item ∈ items, SameExtent item (change item)) :
    nodesOf (items.map change) = nodesOf items := by
  rw [nodesOf, List.map_map, nodesOf]
  exact congrArg (List.foldr (· + ·) 0)
    (List.map_congr_left fun item listed => (same item listed).nodes)

lemma typesOf_map (same : ∀ item ∈ items, SameExtent item (change item)) :
    typesOf (items.map change) = typesOf items := by
  rw [typesOf, List.map_map, typesOf]
  exact congrArg (List.foldr (· + ·) 0)
    (List.map_congr_left fun item listed => (same item listed).types)

section
variable (same : SameExtent site.item item)
include same

lemma Site.key_put : (site.put item).key = site.key := by
  rw [Site.key, Site.stop, Site.put, same.nodes]
  rfl

lemma Site.covers_put : (site.put item).Covers = site.Covers := by
  rw [Site.Covers, Site.stop, Site.put, same.nodes]
  rfl

lemma Site.coversType_put : (site.put item).CoversType = site.CoversType := by
  rw [Site.CoversType, Site.typeStop, Site.put, same.types]
  rfl

end

lemma sitesFrom_map (same : ∀ item ∈ items, SameExtent item (change item)) (start typeStart : Nat) :
    sitesFrom start typeStart (items.map change) =
      (sitesFrom start typeStart items).map fun site => site.put (change site.item) := by
  induction items generalizing start typeStart with
  | nil => rfl
  | cons item rest ih =>
    rw [forall_mem_cons] at same
    rw [map_cons, sitesFrom, same.1.nodes, same.1.types, ih same.2]
    rfl

lemma keysFrom_map (same : ∀ item ∈ items, SameExtent item (change item))
    (start : Nat) : keysFrom start (items.map change) = keysFrom start items := by
  rw [keysFrom, sitesFrom_map same, List.map_map]
  refine List.map_congr_left fun site listed => ?_
  exact Site.key_put (same _ (item_mem_of_mem_sitesFrom listed))

variable {other : Site α}

lemma Site.Apart.not_covers (apart : site.Apart other) (covers : site.Covers key) :
    ¬ other.Covers key := by
  intro also
  unfold Site.Covers Stretch at covers also
  rcases apart.1 with before | after <;> omega

lemma Site.Apart.not_coversType (apart : site.Apart other) (covers : site.CoversType key) :
    ¬ other.CoversType key := by
  intro also
  unfold Site.CoversType Stretch at covers also
  rcases apart.2 with before | after <;> omega

/-- What lies side by side lasts if only places before it or behind it change. -/
lemma Lasting.row (lasting : Lasting shows) {first last firstType lastType : Nat}
    {before after : Store}
    (persists : Persists (Stretch first last) (Stretch firstType lastType) before after)
    (apart : last <= start ∨ start + nodesOf items <= first)
    (apartTypes : lastType <= typeStart ∨ typeStart + typesOf items <= firstType)
    (shown : ∀ site ∈ sitesFrom start typeStart items, shows before site) :
    ∀ site ∈ sitesFrom start typeStart items, shows after site := by
  intro site listed
  have within := within_of_mem_sitesFrom listed
  refine lasting site _ _ _ _ persists ?_ ?_ (shown site listed)
  · intro key covers also
    unfold Site.Covers Stretch at *
    omega
  · intro key covers also
    unfold Site.CoversType Stretch at *
    omega

/-- The places of the definitions at the sites of a list. -/
def Covered (sites : List (Site α)) (key : Nat) : Prop :=
  ∃ site ∈ sites, site.Covers key

def CoveredTypes (sites : List (Site α)) (key : Nat) : Prop :=
  ∃ site ∈ sites, site.CoversType key

lemma covered_cons {sites : List (Site α)} :
    Covered (site :: sites) key ↔ site.Covers key ∨ Covered sites key := by
  simp only [Covered, mem_cons, exists_eq_or_imp]

lemma covered_single : Covered [site] = site.Covers := by
  funext key
  simp only [Covered, List.mem_singleton, exists_eq_left]

/-- Something else of the same extent is shown at the site. -/
def Replaces (shown : Store -> Site β -> Prop) (store : Store) (site : Site α) (item : β) : Prop :=
  shown store (site.put item) ∧ SameExtent site.item item

lemma Lasting.replaces (lasting : Lasting shown) (item : β) (before after : Store)
    (persists : Persists nowhere nowhere before after)
      (replaces : Replaces shown before site item) : Replaces shown after site item :=
  ⟨lasting.lasts persists replaces.1, replaces.2⟩

/-- What has become of the sites of a list: at each of them something else of the
same extent is shown. -/
def Become (shown : Store -> Site β -> Prop) (store : Store) (sites : List (Site α))
    (items : List β) : Prop :=
  List.Forall₂ (fun site item => shown store (site.put item) ∧ SameExtent site.item item) sites
    items

/-- Other things in the places of those of a list. -/
def putAll (sites : List (Site α)) (items : List β) : List (Site β) :=
  List.zipWith Site.put sites items

namespace Become

variable {shown : Store -> Site β -> Prop} {store : Store} {sites : List (Site α)} {items : List β}

section
variable (become : Become shown store sites items)
include become

lemma map_item : (putAll sites items).map Site.item = items := by
  induction become with
  | nil => rfl
  | cons _ _ ih => exact congrArg (_ :: ·) ih

lemma map_key : (putAll sites items).map Site.key = sites.map Site.key := by
  induction become with
  | nil => rfl
  | cons first _ ih =>
    rw [putAll, zipWith_cons_cons, map_cons, map_cons, Site.key_put first.2]
    exact congrArg (_ :: ·) ih

lemma origin {other : Site β} (listed : other ∈ putAll sites items) :
    ∃ site ∈ sites, ∃ item, other = site.put item ∧ SameExtent site.item item ∧
      shown store other := by
  induction become with
  | nil => cases listed
  | cons first _ ih =>
    rcases List.mem_cons.mp listed with same | listed
    · rw [same]
      exact ⟨_, mem_cons_self, _, rfl, first.2, first.1⟩
    · rcases ih listed with ⟨site, member, rest⟩
      exact ⟨site, mem_cons_of_mem _ member, rest⟩

end

lemma apart (become : Become shown store sites items) (apart : sites.Pairwise Site.Apart) :
    (putAll sites items).Pairwise Site.Apart := by
  induction become with
  | nil => exact List.Pairwise.nil
  | cons first become ih =>
    rcases List.pairwise_cons.mp apart with ⟨apartFirst, apartRest⟩
    refine List.pairwise_cons.mpr ⟨fun other listed => ?_, ih apartRest⟩
    rcases Become.origin become listed with ⟨site, member, item, same, sameItem, _⟩
    rw [same]
    simp only [Site.Apart, Site.stop, Site.typeStop, Site.put, first.2.nodes, first.2.types,
      sameItem.nodes, sameItem.types]
    exact apartFirst site member

end Become

variable {sites : List (Site α)} {step : α -> Except CompileError β} {visitAt : Site α -> Work Unit}

/-- The sites of a list are visited.  Each visit goes the way of a step, shows its result at
the site and leaves all else as it is.  An invariant may speak about the sites still to be
visited. -/
lemma follows_forM_sites (invariant : List (Site α) -> Store -> Prop) (lasting : Lasting shows)
    (lastingShown : Lasting shown) (apart : sites.Pairwise Site.Apart)
    (visited : ∀ site ∈ sites, ∀ rest store, invariant (site :: rest) store -> shows store site ->
      Follows (visitAt site) store (fun _ item after => Replaces shown after site item ∧
      Persists site.Covers site.CoversType store after ∧ invariant rest after) (step site.item))
    (holds : invariant sites store) (shows_sites : ∀ site ∈ sites, shows store site) :
    Follows (sites.forM visitAt) store (fun _ items after => Become shown after sites items ∧
        Persists (Covered sites) (CoveredTypes sites) store after ∧ invariant [] after)
      ((sites.map Site.item).mapM step) := by
  induction sites generalizing store with
  | nil => exact .done rfl ⟨.nil, Persists.refl _ _ store, holds⟩
  | cons site rest ih =>
    rw [map_cons, mapM_cons]
    rcases List.pairwise_cons.mp apart with ⟨apartFirst, apartRest⟩
    refine (visited site mem_cons_self rest store holds
      (shows_sites site mem_cons_self)).bind ?_
    rintro _ item middle ⟨⟨shownFirst, same⟩, persists, holds⟩
    have others : ∀ other ∈ rest, shows middle other := by
      intro other listed
      refine lasting other _ _ _ _ persists ?_ ?_
        (shows_sites other (mem_cons_of_mem _ listed))
      · exact fun key covers => (apartFirst other listed).symm.not_covers covers
      · exact fun key covers => (apartFirst other listed).symm.not_coversType covers
    refine (ih apartRest (fun other listed => visited other (mem_cons_of_mem _ listed)) holds
      others).map ?_
    rintro _ items after ⟨become, further, holds⟩
    refine ⟨.cons ⟨?_, same⟩ become, ?_, holds⟩
    · refine lastingShown _ _ _ _ _ further ?_ ?_ shownFirst
      · rintro key covers ⟨other, listed, also⟩
        rw [Site.covers_put same] at covers
        exact (apartFirst other listed).not_covers covers also
      · rintro key covers ⟨other, listed, also⟩
        rw [Site.coversType_put same] at covers
        exact (apartFirst other listed).not_coversType covers also
    · refine (persists.mono ?_ ?_).trans (further.mono ?_ ?_)
      · exact fun key covers => ⟨site, mem_cons_self, covers⟩
      · exact fun key covers => ⟨site, mem_cons_self, covers⟩
      · exact fun key ⟨other, listed, covers⟩ =>
          ⟨other, mem_cons_of_mem _ listed, covers⟩
      · exact fun key ⟨other, listed, covers⟩ =>
          ⟨other, mem_cons_of_mem _ listed, covers⟩

variable {frame : (Key -> Prop) -> (Key -> Prop) -> Store -> Store -> Prop}

/-- What no visit touches is left alone by all of them. -/
lemma Framing.follows_sites (framing : Framing frame) (lasting : Lasting shows)
    (lastingShown : Lasting shown) (apart : sites.Pairwise Site.Apart)
    (visited : ∀ site ∈ sites, ∀ middle, frame (Covered sites) (CoveredTypes sites) store middle ->
      shows middle site -> Follows (visitAt site) middle
      (fun _ item after => Replaces shown after site item ∧
      frame site.Covers site.CoversType middle after) (step site.item))
    (shows_sites : ∀ site ∈ sites, shows store site) : Follows (sites.forM visitAt) store
      (fun _ items after => Become shown after sites items ∧
        frame (Covered sites) (CoveredTypes sites) store after)
      ((sites.map Site.item).mapM step) := by
  refine (follows_forM_sites (fun _ => frame (Covered sites) (CoveredTypes sites) store) lasting
    lastingShown apart ?_ (framing.refl _ _ store) shows_sites).mono ?_
  · intro site listed _ middle framed showsSite
    refine (visited site listed middle framed showsSite).mono ?_
    rintro _ item after ⟨holds, further⟩
    refine ⟨holds, (framing.alters further).toPersists, framing.trans framed
      (framing.mono further ?_ ?_)⟩
    · exact fun key covers => ⟨site, listed, covers⟩
    · exact fun key covers => ⟨site, listed, covers⟩
  · rintro _ items after ⟨become, _, framed⟩
    exact ⟨become, framed⟩

/-- Things side by side that take up the same places as others. -/
structure SameRow (start : Nat) (items : List α) (others : List β) : Prop where
  nodes : nodesOf others = nodesOf items
  types : typesOf others = typesOf items
  keys : keysFrom start others = keysFrom start items

/-- What has become of things side by side: others that are shown in their places. -/
structure BecomeRow (shown : Store -> Site β -> Prop) (store : Store) (start typeStart : Nat)
    (items : List α) (others : List β) : Prop where
  shown : ∀ site ∈ sitesFrom start typeStart others, shown store site
  same : SameRow start items others

/-- What has become of sites side by side lies side by side again. -/
lemma Become.row {others : List β}
    (become : Become shown store (sitesFrom start typeStart items) others) :
    BecomeRow shown store start typeStart items others := by
  induction items generalizing start typeStart others with
  | nil =>
    cases become
    exact ⟨(fun _ listed => nomatch listed), rfl, rfl, rfl⟩
  | cons item rest ih =>
    cases become with
    | cons first become =>
      rename_i other others
      rcases first with ⟨shownFirst, same⟩
      rcases ih become with ⟨shownRest, sameRest⟩
      refine ⟨?_, ?_, ?_, ?_⟩
      · intro site listed
        rw [sitesFrom, same.nodes, same.types] at listed
        rcases List.mem_cons.mp listed with isFirst | listed
        · rw [isFirst]
          exact shownFirst
        · exact shownRest site listed
      · rw [nodesOf_cons, nodesOf_cons, same.nodes, sameRest.nodes]
      · rw [typesOf_cons, typesOf_cons, same.types, sameRest.types]
      · have keys := sameRest.keys
        rw [← map_key_sitesFrom _ _ (0 + Extent.types other),
          ← map_key_sitesFrom _ _ (0 + Extent.types item)] at keys
        rw [keysFrom, sitesFrom, map_cons, keysFrom, sitesFrom, map_cons, same.nodes,
          keys]
        congr 1
        exact Site.key_put same

lemma stretch_of_covered (covered : Covered (sitesFrom start typeStart items) key) :
    Stretch start (start + nodesOf items) key := by
  rcases covered with ⟨site, listed, covers⟩
  have inside := within_of_mem_sitesFrom listed
  exact Stretch.mono inside.1.1 inside.1.2 key covers

lemma stretch_of_coveredTypes (covered : CoveredTypes (sitesFrom start typeStart items) key) :
    Stretch typeStart (typeStart + typesOf items) key := by
  rcases covered with ⟨site, listed, covers⟩
  have inside := within_of_mem_sitesFrom listed
  exact Stretch.mono inside.2.1 inside.2.2 key covers

/-- Definitions side by side are visited one after the other, each with the stack
around the visit. -/
lemma Framing.follows_row (framing : Framing frame) {runner : Key} (lasting : Lasting shows)
    (lastingShown : Lasting shown) (inside : runner < store.runners.size)
    (visited : ∀ site ∈ sitesFrom start typeStart items, ∀ middle entered, entered =
      middle.enter runner site.key -> frame (Stretch start (start + nodesOf items))
      (Stretch typeStart (typeStart + typesOf items)) store middle -> entered.stackOf runner =
      site.key :: store.stackOf runner -> shows entered site -> Follows (visit site.key) entered
      (fun _ item after => Replaces shown after site item ∧
      frame site.Covers site.CoversType entered after) (step site.item))
    (shows_sites : ∀ site ∈ sitesFrom start typeStart items, shows store site) :
    Follows ((keysFrom start items).forM (walk runner visit)) store
      (fun _ others after => BecomeRow shown after start typeStart items others ∧
        frame (Stretch start (start + nodesOf items))
          (Stretch typeStart (typeStart + typesOf items)) store after) (items.mapM step) := by
  have all : Follows ((sitesFrom start typeStart items).forM fun site =>
      walk runner visit site.key) store _
      (((sitesFrom start typeStart items).map Site.item).mapM step) :=
    framing.follows_sites lasting lastingShown
      (apart_sitesFrom items start typeStart) ?_ shows_sites
  · rw [map_item_sitesFrom] at all
    rw [← map_key_sitesFrom items start typeStart, List.forM_eq_forM, List.forM_map]
    refine all.mono ?_
    rintro _ others after ⟨become, framed⟩
    exact ⟨become.row, framing.mono framed (fun _ => stretch_of_covered)
      fun _ => stretch_of_coveredTypes⟩
  · intro site listed middle framed showsSite
    have equipment := (framing.alters framed).equipment
    refine framing.follows_walk lastingShown.replaces (visited site listed middle _ rfl ?_ ?_ ?_)
    · exact framing.mono framed (fun _ => stretch_of_covered) fun _ => stretch_of_coveredTypes
    · rw [stackOf_enter (by rw [size_runners_of_equipment equipment]; exact inside),
        stackOf_of_equipment equipment]
    · exact lasting.lasts (persists_enter middle runner site.key) showsSite

end

end MessageSchema.Workbench
