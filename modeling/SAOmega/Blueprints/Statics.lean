import SAOmega.Blueprints.Model

/-!
# What the static variables hold

A cache asks for its class until it gets one.  A static variable does not ask
again: when its first call finds no class, it is null for good, even if the
cache has the class later on.
-/

namespace SAOmega.Blueprints

open SAOmega.Support

variable {κ : Type*}

/-! ## Loads -/

def Effect.answer? (b : Blueprint) : Effect κ → Option (Option κ)
  | .bpLoadClass path answer => if path = b.path then some answer else none

/-- What `BPLoadClass` has answered for a blueprint, in this order. -/
def loads (b : Blueprint) (history : History κ) : List (Option κ) :=
  history.flatMap fun r => r.out.filterMap (Effect.answer? b)

/-- The first class which it has answered. -/
def firstLoaded (b : Blueprint) (history : History κ) : Option κ :=
  (loads b history).findSome? id

theorem path_inj {b b' : Blueprint} : b.path = b'.path ↔ b = b' := by
  cases b with
  | spyGlassBuffBlueprint | spyGlassBlueprint | bpPath =>
      cases b' with
      | spyGlassBuffBlueprint | spyGlassBlueprint | bpPath => decide

theorem loads_snoc (b : Blueprint) (history : History κ)
    (r : Step (State κ) (Event κ) (List (Effect κ))) :
    loads b (history ++ [r]) =
      loads b history ++ r.out.filterMap (Effect.answer? b) := by
  simp [loads]

theorem answers_of_load (b : Blueprint) (site : Site) (answer : Option κ) :
    [Effect.bpLoadClass site.blueprint.path answer].filterMap
        (Effect.answer? b) =
      if b = site.blueprint then [answer] else [] := by
  by_cases heq : b = site.blueprint
  · simp [Effect.answer?, heq]
  · simp [Effect.answer?, heq, path_inj, Ne.symm heq]

/-- The variables at whose declarations there has been a load. -/
def loadSites (history : History κ) : List Site :=
  history.filterMap fun r =>
    if r.out.isEmpty then none else some r.event.site

/-! ## Along a run -/

/-- The caches and the variables against the loads so far. -/
structure Loaded (history : History κ) (s : State κ) : Prop where
  cls : ∀ b, (s.cache b).cls = firstLoaded b history
  classes : ∀ b, (loads b history).countP Option.isSome =
    if (s.cache b).cls.isSome then 1 else 0
  nodup : (loadSites history).Nodup
  initialised : ∀ site ∈ loadSites history, s.statics site ≠ none
  agrees : ∀ site c, s.statics site = some (some c) →
    (s.cache site.blueprint).cls = some c

theorem loaded_init : Loaded [] (init κ) where
  cls _ := rfl
  classes _ := rfl
  nodup := .nil
  initialised _ h := by cases h
  agrees _ _ h := by cases h

/-- A step without a load, and the variable it may initialise from the cache. -/
theorem Loaded.quiet {history : History κ} {s t : State κ} {e : Event κ}
    (hs : Loaded history s) (hcache : ∀ b, (t.cache b).cls = (s.cache b).cls)
    (hstatics : ∀ site, t.statics site = s.statics site ∨
      (t.statics site = some (s.cache site.blueprint).cls)) :
    Loaded (history ++ [⟨s, e, [], t⟩]) t where
  cls b := by
    rw [hcache, hs.cls, firstLoaded, firstLoaded, loads_snoc]
    simp
  classes b := by
    rw [hcache, loads_snoc]
    simpa using hs.classes b
  nodup := by simpa [loadSites] using hs.nodup
  initialised site hsite := by
    have hold : s.statics site ≠ none :=
      hs.initialised site (by simpa [loadSites] using hsite)
    rcases hstatics site with h | h
    · rwa [h]
    · simp [h]
  agrees site c hc := by
    rw [hcache]
    rcases hstatics site with h | h
    · exact hs.agrees site c (h.symm.trans hc)
    · exact Option.some.inj (h.symm.trans hc)

/-- A first call that asks the engine, and hands its answer to the cache and to
the variable. -/
theorem Loaded.load {history : History κ} {s t : State κ} {e : Event κ}
    (hs : Loaded history s) (hstatic : s.statics e.site = none)
    (hcls : (s.cache e.site.blueprint).cls = none)
    (hcache : ∀ b, (t.cache b).cls =
      if b = e.site.blueprint then e.answer else (s.cache b).cls)
    (hstatics : t.statics =
      Function.update s.statics e.site (some e.answer)) :
    Loaded (history ++
      [⟨s, e, [.bpLoadClass e.site.blueprint.path e.answer], t⟩]) t := by
  have hsites : loadSites (history ++
      [⟨s, e, [.bpLoadClass e.site.blueprint.path e.answer], t⟩]) =
        loadSites history ++ [e.site] := by
    simp [loadSites]
  constructor
  · intro b
    rw [hcache, firstLoaded, loads_snoc, answers_of_load,
      List.findSome?_append]
    split
    next heq =>
      subst heq
      have hnone : (loads e.site.blueprint history).findSome? id = none :=
        (hs.cls e.site.blueprint).symm.trans hcls
      simp [hnone]
    next => simpa [firstLoaded] using hs.cls b
  · intro b
    rw [hcache, loads_snoc, answers_of_load, List.countP_append]
    split
    next heq =>
      subst heq
      have hnone := hs.classes e.site.blueprint
      rw [hcls] at hnone
      simp [hnone, List.countP_singleton]
    next => simpa using hs.classes b
  · have hfresh : e.site ∉ loadSites history :=
      fun hmem => hs.initialised _ hmem hstatic
    rw [hsites]
    exact hs.nodup.append (List.nodup_singleton _)
      (List.disjoint_singleton.mpr hfresh)
  · intro site hsite
    rw [hstatics]
    by_cases heq : site = e.site
    · simp [heq]
    · rw [Function.update_of_ne heq]
      rw [hsites, List.mem_append] at hsite
      exact hs.initialised site (hsite.resolve_right (by simpa using heq))
  · intro site c hc
    rw [hstatics] at hc
    rw [hcache]
    by_cases heq : site = e.site
    · subst heq
      rw [Function.update_self] at hc
      rw [if_pos rfl]
      exact Option.some.inj hc
    · rw [Function.update_of_ne heq] at hc
      have hold := hs.agrees site c hc
      -- A variable of the same blueprint that has a class would have left it
      -- in the cache.
      have hne : site.blueprint ≠ e.site.blueprint := by
        intro hsame
        rw [hsame, hcls] at hold
        cases hold
      rw [if_neg hne]
      exact hold

theorem loaded_of_step {history : History κ} {s t : State κ} {e : Event κ}
    {o : List (Effect κ)} (hs : Loaded history s)
    (h : step s e = some (o, t)) : Loaded (history ++ [⟨s, e, o, t⟩]) t := by
  cases transition_of_step h with
  | initialised => exact hs.quiet (fun _ => rfl) fun _ => .inl rfl
  | cached hstatic hcls hcache hstatics =>
      refine hs.quiet hcache fun site => ?_
      rw [hstatics]
      by_cases heq : site = e.site
      · subst heq
        exact .inr (by rw [Function.update_self, hcls])
      · exact .inl (Function.update_of_ne heq _ _)
  | loads hstatic hcls hcache hstatics =>
      exact hs.load hstatic hcls hcache hstatics

theorem run_loaded {history : History κ} {s : State κ}
    (h : Run step (init κ) history s) : Loaded history s := by
  induction h with
  | nil => exact loaded_init
  | snoc _ hstep ih => exact loaded_of_step ih hstep

/-- A variable that has been initialised keeps its value. -/
theorem step_keeps {site : Site} {v : Option κ} (s : State κ) (e : Event κ)
    (o : List (Effect κ)) (t : State κ) (hs : s.statics site = some v)
    (h : step s e = some (o, t)) : t.statics site = some v := by
  cases transition_of_step h with
  | initialised => exact hs
  | cached hstatic _ _ hstatics | loads hstatic _ _ hstatics =>
      have hne : site ≠ e.site := by
        rintro rfl
        rw [hstatic] at hs
        cases hs
      rw [hstatics, Function.update_of_ne hne]
      exact hs

/-- The first call gives the variable what the cache has or gets. -/
theorem statics_of_first {history : History κ} {s t : State κ} {e : Event κ}
    {o : List (Effect κ)} (hs : Loaded history s)
    (h : step s e = some (o, t)) (hnew : s.statics e.site = none) :
    t.statics e.site =
      some ((firstLoaded e.site.blueprint history).or e.answer) := by
  have hfirst := hs.cls e.site.blueprint
  cases transition_of_step h with
  | initialised hstatic =>
      rw [hnew] at hstatic
      cases hstatic
  | cached _ hcls _ hstatics | loads _ hcls _ hstatics =>
      rw [hcls] at hfirst
      rw [hstatics, Function.update_self, ← hfirst]
      rfl

/-- A static variable holds for good what its first call found: the first class
that has ever been loaded for its blueprint, or else the answer which that call
got, a null pointer included.  So two variables of one blueprint never hold
different classes, no blueprint gets a second class, and no declaration makes
the engine load twice. -/
theorem classes_of_statics {history : History κ} {s : State κ}
    (h : Run step (init κ) history s) :
    (∀ before r after, history = before ++ r :: after →
      r.pre.statics r.event.site = none →
        s.statics r.event.site =
          some ((firstLoaded r.event.site.blueprint before).or
            r.event.answer)) ∧
      (∀ site site' c c', site.blueprint = site'.blueprint →
        s.statics site = some (some c) → s.statics site' = some (some c') →
          c = c') ∧
      (∀ b, (loads b history).countP Option.isSome ≤ 1) ∧
      (loadSites history).Nodup := by
  have hloaded := run_loaded h
  refine ⟨?_, ?_, ?_, hloaded.nodup⟩
  · rintro before r after rfl hnew
    obtain ⟨hbefore, hstep, hafter⟩ := h.split
    have hfirst := statics_of_first (run_loaded hbefore) hstep hnew
    exact hafter.invariant step_keeps hfirst
  · intro site site' c c' hsame hc hc'
    have hcls := hloaded.agrees site c hc
    rw [hsame, hloaded.agrees site' c' hc'] at hcls
    exact (Option.some.inj hcls).symm
  · intro b
    rw [hloaded.classes b]
    split
    next => exact le_rfl
    next => exact Nat.zero_le _

/-- An item is added before the mod has its class: the two variables for the
spyglass differ for good. -/
def earlyRun : Option (History ℕ × State ℕ) :=
  execute step (init ℕ)
    [⟨.addedClass, none⟩, ⟨.spawnBuffClass, some 1⟩, ⟨.spawnClass, some 2⟩,
      ⟨.addedClass, some 2⟩, ⟨.dinoDropClass, some 3⟩, ⟨.spawnClass, some 2⟩]

theorem classes_of_statics_early :
    let history := (earlyRun.get (by decide)).1
    let s := (earlyRun.get (by decide)).2
    (s.statics .addedClass = some none ∧
      s.statics .spawnClass = some (some 2)) ∧
      ((∀ before r after, history = before ++ r :: after →
        r.pre.statics r.event.site = none →
          s.statics r.event.site =
            some ((firstLoaded r.event.site.blueprint before).or
              r.event.answer)) ∧
        (∀ site site' c c', site.blueprint = site'.blueprint →
          s.statics site = some (some c) → s.statics site' = some (some c') →
            c = c') ∧
        (∀ b, (loads b history).countP Option.isSome ≤ 1) ∧
        (loadSites history).Nodup) :=
  ⟨by decide, classes_of_statics (run_of_execute_get (by decide))⟩

end SAOmega.Blueprints
