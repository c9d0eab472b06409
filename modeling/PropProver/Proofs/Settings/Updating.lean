import PropProver.Proofs.Json.Keeping
import PropProver.Settings.Basic

/-!
# What an update comes to

An update writes into a document while it runs through the new values. What comes of it can be
said of the two documents alone: one is laid over the other (`overlay`), name by name where both
have named values, and elsewhere the new value stands. The old names keep their places, and the new
ones follow (`names_overlayFields`). If the new values of an object have different names, and the
old document has an object wherever it has something and the new one has an object, then the update
does not stop, and this is the result (`merge_eq`).

What a path leads to afterwards is the new value laid over the old one (`walk_overlay`), as far as
the path goes in the new document, and what it led to before where it leaves the new document
(`walk_overlay_of_missing`). An update that is made once more changes nothing (`overlay_overlay`,
`get_update`).
-/

namespace PropProver

/-! ### Fields by name -/

namespace Fields

universe u

variable {α : Type u}

theorem get?_of_notMem {fs : Fields α} {n : String} (hn : n ∉ names fs) : fs.get? n = none := by
  cases h : fs.get? n with
  | none => rfl
  | some x => exact absurd (List.mem_map_of_mem (mem_of_get? h)) hn

theorem get?_filter (q : String → Bool) (fs : Fields α) (n : String) :
    get? (fs.filter (q ·.1)) n = if q n then fs.get? n else none := by
  induction fs with
  | nil => simp
  | cons f fs ih =>
    obtain ⟨m, x⟩ := f
    rw [List.filter_cons]
    split
    · next hm =>
      rw [get?_cons, get?_cons, ih]
      by_cases hn : n = m
      · rw [if_pos hn, if_pos hn, hn, if_pos hm]
      · rw [if_neg hn, if_neg hn]
    · next hm =>
      rw [ih, get?_cons]
      by_cases hn : n = m
      · rw [hn, if_neg hm, if_neg hm]
      · rw [if_neg hn]

end Fields

namespace Settings

variable {x u v : Json} {fs us ws : List (String × Json)} {k n : String} {p : List String}

/-! ### One document over another -/

mutual

/-- A value with another one laid over it: named values are laid over each other name by name, and
any other value covers what is below it. -/
def overlay : Json → Json → Json
  | .obj fs, .obj us => .obj (overlayFields fs us)
  | _, v => v

/-- The old names in their places, with what is laid over their values, and then the new names. -/
def overlayFields : List (String × Json) → List (String × Json) → List (String × Json)
  | [], us => us
  | (k, x) :: fs, us =>
    (k, match Fields.get? us k with
      | some v => overlay x v
      | none => x) :: overlayFields fs (us.filter (·.1 ≠ k))

end

/-- A value laid over what there is, if there is anything. -/
def cover (old : Option Json) (v : Json) : Json := old.elim v (overlay · v)

theorem overlay_of_not_obj (x : Json) (hv : ∀ ws, v ≠ .obj ws) : overlay x v = v := by
  cases v <;> simp_all [overlay]

theorem cover_of_not_obj (old : Option Json) (hv : ∀ ws, v ≠ .obj ws) : cover old v = v := by
  cases old with
  | none => rfl
  | some x => exact overlay_of_not_obj x hv

theorem cover_obj (old : Option Json) (ws : List (String × Json)) :
    cover old (.obj ws) = overlay (old.getD (.obj [])) (.obj ws) := by
  cases old with
  | none => simp [cover, overlay, overlayFields]
  | some x => rfl

theorem overlayFields_nil (fs : List (String × Json)) : overlayFields fs [] = fs := by
  induction fs with
  | nil => rfl
  | cons f fs ih =>
    obtain ⟨k, x⟩ := f
    rw [overlayFields, List.filter_nil, ih]
    rfl

theorem get?_overlayFields (fs us : List (String × Json)) (n : String) :
    Fields.get? (overlayFields fs us) n =
      match Fields.get? us n with
      | some v => some (cover (Fields.get? fs n) v)
      | none => Fields.get? fs n := by
  induction fs generalizing us with
  | nil => cases h : Fields.get? us n <;> simp [overlayFields, h, cover]
  | cons f fs ih =>
    obtain ⟨k, x⟩ := f
    rw [overlayFields, Fields.get?_cons, Fields.get?_cons, ih, Fields.get?_filter fun m => m ≠ k]
    by_cases h : n = k
    · subst h
      cases hu : Fields.get? us n <;> simp [cover]
    · simp [h]

/-- The old names keep their places, and the new ones come after them. -/
theorem names_overlayFields (fs us : List (String × Json)) :
    Fields.names (overlayFields fs us) =
      Fields.names fs ++ (Fields.names us).filter (· ∉ Fields.names fs) := by
  induction fs generalizing us with
  | nil =>
    rw [overlayFields]
    simp [Fields.names]
  | cons f fs ih =>
    obtain ⟨k, x⟩ := f
    rw [overlayFields, Fields.names_cons, ih, Fields.names_cons, List.cons_append]
    unfold Fields.names
    rw [List.filter_map, List.filter_map, List.filter_filter]
    congr 3
    refine List.filter_congr fun f _ => ?_
    rw [Bool.eq_iff_iff, Bool.and_eq_true, Function.comp, decide_eq_true_iff, decide_eq_true_iff,
      Function.comp, decide_eq_true_iff, List.mem_cons, not_or]
    exact and_comm

mutual

theorem overlay_self : ∀ x, overlay x x = x
  | .obj fs => by
    have h := overlayFields_filter (fun _ => true) fs
    rw [List.filter_true] at h
    rw [overlay, h]
  | .null | .bool _ | .int _ | .str _ | .arr _ => rfl

/-- Nothing changes if values are laid over what they are. -/
theorem overlayFields_filter :
    ∀ (q : String → Bool) us, overlayFields us (us.filter (q ·.1)) = us
  | _, [] => rfl
  | q, (k, v) :: us => by
    have htail := overlayFields_filter (fun n => n ≠ k && q n) us
    rw [overlayFields, Fields.get?_filter q, Fields.get?_cons, if_pos rfl, List.filter_filter,
      List.filter_cons_of_neg (by simp), htail]
    split
    · next w hw =>
      split at hw
      · cases hw
        rw [overlay_self v]
      · cases hw
    · rfl

end

mutual

/-- Laying a value over another a second time changes nothing. -/
theorem overlay_overlay : ∀ x u, overlay (overlay x u) u = overlay x u
  | .obj fs, .obj us => by rw [overlay, overlay, overlayFields_overlayFields fs us]
  | .obj _, .null | .obj _, .bool _ | .obj _, .int _ | .obj _, .str _ | .obj _, .arr _ => rfl
  | .null, u | .bool _, u | .int _, u | .str _, u | .arr _, u => overlay_self u

theorem overlayFields_overlayFields :
    ∀ fs us, overlayFields (overlayFields fs us) us = overlayFields fs us
  | [], us => Json.obj.inj (overlay_self (.obj us))
  | (k, x) :: fs, us => by
    have htail := overlayFields_overlayFields fs (us.filter (·.1 ≠ k))
    rw [overlayFields, overlayFields, htail]
    cases Fields.get? us k with
    | none => rfl
    | some v =>
      dsimp only
      rw [overlay_overlay x v]

end

/-! ### Where paths lead -/

theorem walk_append (p r : List String) (x : Json) : walk (p ++ r) x = (walk p x).bind (walk r) := by
  induction p generalizing x with
  | nil => rfl
  | cons n p ih =>
    cases x with
    | obj fs =>
      rw [List.cons_append, walk, walk, Option.bind_assoc]
      exact congrArg _ (funext ih)
    | _ => rfl

theorem walk_cons_of_not_obj (hv : ∀ ws, v ≠ .obj ws) : walk (n :: p) v = none := by
  cases v with
  | obj ws => exact absurd rfl (hv ws)
  | _ => rfl

theorem exists_obj_of_walk (h : walk p v = some (.obj ws)) : ∃ vs, v = .obj vs := by
  cases v with
  | obj vs => exact ⟨vs, rfl⟩
  | _ =>
    cases p with
    | nil => cases h
    | cons n p => cases h

/-- A path that leads to something in the upper value leads to it laid over what the path leads to
in the lower one. -/
theorem walk_overlay (x : Json) (h : walk p u = some v) :
    walk p (overlay x u) = some (cover (walk p x) v) := by
  induction p generalizing x u with
  | nil =>
    cases h
    rfl
  | cons n p ih =>
    cases u with
    | obj us =>
      obtain ⟨u', hu', hv⟩ := Option.bind_eq_some_iff.1 h
      cases x with
      | obj fs =>
        rw [overlay, walk, walk, get?_overlayFields, hu']
        cases Fields.get? fs n with
        | none => exact hv
        | some x' => exact ih x' hv
      | _ => exact h
    | _ => cases h

/-- A path that leaves the upper value leads on in the lower one. -/
theorem walk_overlay_of_missing {r : List String} (x : Json) (h : walk p u = some (.obj ws))
    (hn : Fields.get? ws n = none) (hx : ∀ y, walk p x = some y → ∃ fs, y = .obj fs) :
    walk (p ++ n :: r) (overlay x u) = walk (p ++ n :: r) x := by
  rw [walk_append, walk_append, walk_overlay x h]
  cases hp : walk p x with
  | none =>
    rw [Option.bind_some, Option.bind_none, cover, Option.elim_none, walk, hn, Option.bind_none]
  | some y =>
    obtain ⟨fs, rfl⟩ := hx y hp
    rw [Option.bind_some, Option.bind_some, cover, Option.elim_some, overlay, walk, walk,
      get?_overlayFields, hn]

/-! ### The update -/

/-- New values can be merged into a document if the values of an object among them have different
names, and the document has an object wherever it has something and they have an object. -/
structure Mergeable (x : Json) (us : List (String × Json)) : Prop where
  distinct : ∀ p ws, walk p (.obj us) = some (.obj ws) → (Fields.names ws).Nodup
  fields : ∀ p ws y, walk p (.obj us) = some (.obj ws) → walk p x = some y → ∃ fs, y = .obj fs

namespace Mergeable

variable {vs : List (String × Json)}

theorem nodup (h : Mergeable x us) : (Fields.names us).Nodup := h.distinct [] us rfl

theorem exists_obj (h : Mergeable x us) : ∃ fs, x = .obj fs := h.fields [] us x rfl rfl

/-- What is new in a section can be merged into what the section has. -/
theorem value (h : Mergeable (.obj fs) ((k, .obj vs) :: us)) :
    Mergeable ((Fields.get? fs k).getD (.obj [])) vs := by
  have hwalk (p : List String) : walk (k :: p) (.obj ((k, .obj vs) :: us)) = walk p (.obj vs) := by
    rw [walk, Fields.get?_cons, if_pos rfl, Option.bind_some]
  constructor
  · intro p ws hp
    exact h.distinct (k :: p) ws ((hwalk p).trans hp)
  · intro p ws y hp hy
    cases hk : Fields.get? fs k with
    | some x =>
      rw [hk] at hy
      exact h.fields (k :: p) ws y ((hwalk p).trans hp) (by rwa [walk, hk])
    | none =>
      rw [hk] at hy
      cases p with
      | nil => exact ⟨[], (Option.some.inj hy).symm⟩
      | cons n p => cases hy

/-- Whether new values can be merged is found out name by name. -/
theorem cons (hk : k ∉ Fields.names us)
    (hv : ∀ vs, v = .obj vs → Mergeable ((Fields.get? fs k).getD (.obj [])) vs)
    (h : Mergeable (.obj fs) us) : Mergeable (.obj fs) ((k, v) :: us) where
  distinct p ws hp := by
    cases p with
    | nil =>
      cases hp
      exact List.nodup_cons.2 ⟨hk, h.nodup⟩
    | cons n p =>
      rw [walk, Fields.get?_cons] at hp
      split at hp
      · obtain ⟨vs, rfl⟩ := exists_obj_of_walk (Option.bind_some .. ▸ hp)
        exact (hv vs rfl).distinct p ws hp
      · exact h.distinct (n :: p) ws hp
  fields p ws y hp hy := by
    cases p with
    | nil => exact ⟨fs, (Option.some.inj hy).symm⟩
    | cons n p =>
      rw [walk, Fields.get?_cons] at hp
      split at hp
      · next hn =>
        obtain ⟨vs, rfl⟩ := exists_obj_of_walk (Option.bind_some .. ▸ hp)
        obtain ⟨x, hx, hy⟩ := Option.bind_eq_some_iff.1 hy
        refine (hv vs rfl).fields p ws y hp ?_
        rwa [← hn, hx]
      · exact h.fields (n :: p) ws y hp hy

theorem nil : Mergeable (.obj fs) [] where
  distinct p ws hp := by
    cases p with
    | nil =>
      cases hp
      exact List.nodup_nil
    | cons n p => cases hp
  fields p ws y hp hy := by
    cases p with
    | nil => exact ⟨fs, (Option.some.inj hy).symm⟩
    | cons n p => cases hp

/-- When the first value has been written, the others can still be merged. -/
theorem tail (h : Mergeable (.obj fs) ((k, v) :: us)) (w : Json) :
    Mergeable (.obj (Fields.put fs k w)) us := by
  obtain ⟨hk, hnodup⟩ := List.nodup_cons.1 h.nodup
  have hwalk (n : String) (p : List String) {y : Json} (hp : walk (n :: p) (.obj us) = some y) :
      n ≠ k ∧ walk (n :: p) (.obj ((k, v) :: us)) = some y := by
    obtain ⟨u, hu, -⟩ := Option.bind_eq_some_iff.1 hp
    have hne : n ≠ k := by
      rintro rfl
      rw [Fields.get?_of_notMem hk] at hu
      cases hu
    refine ⟨hne, ?_⟩
    rwa [walk, Fields.get?_cons, if_neg hne]
  constructor
  · intro p ws hp
    cases p with
    | nil =>
      cases hp
      exact hnodup
    | cons n p => exact h.distinct (n :: p) ws (hwalk n p hp).2
  · intro p ws y hp hy
    cases p with
    | nil => exact ⟨_, (Option.some.inj hy).symm⟩
    | cons n p =>
      obtain ⟨hne, hp⟩ := hwalk n p hp
      rw [walk, Fields.get?_put, if_neg hne] at hy
      exact h.fields (n :: p) ws y hp hy

end Mergeable

/-- Writing what a new value comes to, and laying the other new values over it. -/
theorem overlayFields_put (hk : k ∉ Fields.names us) (fs : List (String × Json)) (v : Json) :
    overlayFields (Fields.put fs k (cover (Fields.get? fs k) v)) us =
      overlayFields fs ((k, v) :: us) := by
  induction fs generalizing us with
  | nil =>
    have hfilter : us.filter (·.1 ≠ k) = us :=
      List.filter_eq_self.2 fun f hf => decide_eq_true fun heq => hk (heq ▸ List.mem_map_of_mem hf)
    rw [Fields.put, overlayFields, overlayFields, overlayFields, Fields.get?_of_notMem hk, hfilter]
    rfl
  | cons f fs ih =>
    obtain ⟨n, x⟩ := f
    by_cases h : n = k
    · subst h
      rw [Fields.put, if_pos rfl, Fields.get?_cons, if_pos rfl, overlayFields, overlayFields,
        Fields.get?_of_notMem hk, Fields.get?_cons, if_pos rfl, List.filter_cons_of_neg (by simp)]
      rfl
    · have hne : ¬k = n := Ne.symm h
      have hmem : k ∉ Fields.names (us.filter (·.1 ≠ n)) := fun hmem =>
        hk ((List.filter_sublist.map Prod.fst).subset hmem)
      rw [Fields.put, if_neg h, Fields.get?_cons, if_neg hne, overlayFields, overlayFields,
        Fields.get?_cons, if_neg h, List.filter_cons_of_pos (by simpa using hne), ih hmem]

mutual

/-- If new values can be merged into a document, then they all are, and the document is what comes
of laying them over it. -/
theorem merge_eq : ∀ {fs} us, Mergeable (.obj fs) us →
    merge (.obj fs) us = (.obj (overlayFields fs us), none)
  | fs, [], _ => by rw [merge, overlayFields_nil]
  | fs, (k, v) :: us, h => by
    have hvalue := mergeValue_eq (Fields.get? fs k) v fun vs hvs => (hvs ▸ h).value
    rw [merge, hvalue]
    dsimp only
    rw [merge_eq us (h.tail _), overlayFields_put (List.nodup_cons.1 h.nodup).1]

theorem mergeValue_eq : ∀ old v,
    (∀ vs, v = .obj vs → Mergeable (old.getD (.obj [])) vs) → mergeValue old v = (cover old v, none)
  | old, .obj vs, h => by
    obtain ⟨fs, hfs⟩ := (h vs rfl).exists_obj
    have hmerge := merge_eq vs (hfs ▸ h vs rfl)
    rw [mergeValue, cover_obj, hfs, hmerge, overlay]
  | old, .null, _ | old, .bool _, _ | old, .int _, _ | old, .str _, _ | old, .arr _, _ => by
    rw [cover_of_not_obj _ (by simp)]
    rfl

end

/-- New values can be merged a second time. -/
theorem Mergeable.again (h : Mergeable x us) : Mergeable (overlay x (.obj us)) us where
  distinct := h.distinct
  fields p ws y hp hy := by
    rw [walk_overlay x hp] at hy
    cases hx : walk p x with
    | none =>
      rw [hx] at hy
      exact ⟨ws, (Option.some.inj hy).symm⟩
    | some z =>
      obtain ⟨fs, rfl⟩ := h.fields p ws z hp hx
      rw [hx, cover, Option.elim_some, overlay] at hy
      exact ⟨_, (Option.some.inj hy).symm⟩

variable {s : Settings}

theorem update_eq (h : Mergeable s.document us) :
    s.update us = (⟨overlay s.document (.obj us)⟩, none) := by
  obtain ⟨fs, hfs⟩ := h.exists_obj
  rw [update, hfs, merge_eq us (hfs ▸ h), overlay]

/-! ### Keys -/

theorem names_eq_splitOn (cs : List Char) : names cs = cs.splitOn '.' := by
  induction cs with
  | nil => rfl
  | cons c cs ih =>
    rw [List.splitOn, List.splitOnP_cons_eq_if_modifyHead, ← List.splitOn, ← ih, names]
    by_cases h : c = '.'
    · rw [if_pos h, if_pos (beq_iff_eq.2 h)]
    · rw [if_neg h, if_neg (mt beq_iff_eq.1 h)]
      cases hcs : names cs with
      | nil => exact absurd (ih.symm.trans hcs) (List.splitOn_ne_nil '.' cs)
      | cons n ns => rfl

/-- The names that a key was put together from are found again. -/
theorem names_intercalate {p : List String} (hp : p ≠ []) (hdots : ∀ n ∈ p, '.' ∉ n.toList) :
    (names (".".intercalate p).toList).map String.ofList = p := by
  have hne : p.map String.toList ≠ [] := fun h => hp (List.map_eq_nil_iff.1 h)
  have hchars : ∀ cs ∈ p.map String.toList, '.' ∉ cs := by
    intro cs hcs
    obtain ⟨n, hn, rfl⟩ := List.mem_map.1 hcs
    exact hdots n hn
  have hsplit := List.splitOn_intercalate '.' hchars hne
  rw [names_eq_splitOn, String.toList_intercalate]
  simp [hsplit]

theorem get_intercalate (s : Settings) (hp : p ≠ []) (hdots : ∀ n ∈ p, '.' ∉ n.toList) (d : Json) :
    s.get (".".intercalate p) d = (walk p s.document).getD d := by
  rw [get, get?, names_intercalate hp hdots]

/-- **Updating settings.** If new values can be merged into the settings, an update does not stop.
Afterwards a key leads to the new value, if it leads to one that is no object; nowhere, if a part of
it leads to such a value; to what it led to before, if it leaves the new values at a name that is
not among those of an object; and to the new object laid over what was there before, if it leads to
an object. An update that is made once more changes nothing. -/
theorem get_update (h : Mergeable s.document us) :
    let s' := (s.update us).1
    (s.update us).2 = none ∧
    (∀ p : List String, p ≠ [] → (∀ n ∈ p, '.' ∉ n.toList) →
      let key := ".".intercalate p
      ∀ d : Json,
        (∀ v, walk p (.obj us) = some v → (∀ ws, v ≠ .obj ws) → s'.get key d = v) ∧
        (∀ q n r v, p = q ++ n :: r → walk q (.obj us) = some v → (∀ ws, v ≠ .obj ws) →
          s'.get key d = d) ∧
        (∀ q n r ws, p = q ++ n :: r → walk q (.obj us) = some (.obj ws) →
          n ∉ Fields.names ws → s'.get key d = s.get key d) ∧
        ∀ ws, walk p (.obj us) = some (.obj ws) →
          s'.get key d = overlay (s.get key (.obj [])) (.obj ws)) ∧
    s'.update us = (s', none) := by
  rw [update_eq h]
  refine ⟨rfl, fun p hp hdots d => ?_, ?_⟩
  · simp only [get_intercalate _ hp hdots]
    refine ⟨fun v hv hobj => ?_, ?_, ?_, fun ws hws => ?_⟩
    · rw [walk_overlay _ hv, cover_of_not_obj _ hobj, Option.getD_some]
    · rintro q n r v rfl hv hobj
      rw [walk_append, walk_overlay _ hv, cover_of_not_obj _ hobj, Option.bind_some,
        walk_cons_of_not_obj hobj, Option.getD_none]
    · rintro q n r ws rfl hws hn
      rw [walk_overlay_of_missing _ hws (Fields.get?_of_notMem hn) fun y => h.fields q ws y hws]
    · rw [walk_overlay _ hws, cover_obj, Option.getD_some]
  · rw [update_eq h.again, overlay_overlay]

/-- A section of the packaged settings is changed in one place, and another one is added. -/
theorem get_update_packaged :
    Mergeable packaged [("resolution", .obj [("max_steps", .int 5)]), ("report", .obj [])] ∧
      ((Settings.mk packaged).update
        [("resolution", .obj [("max_steps", .int 5)]), ("report", .obj [])]).1.get
          (".".intercalate ["resolution", "strategy"]) .null = .str "saturation" := by
  have h : Mergeable packaged
      [("resolution", .obj [("max_steps", .int 5)]), ("report", .obj [])] := by
    refine .cons (by decide) ?_ (.cons (by decide) ?_ .nil)
    · rintro vs ⟨⟩
      exact .cons (by decide) (fun vs hvs => by cases hvs) .nil
    · rintro vs ⟨⟩
      exact .nil
  obtain ⟨-, hkept, -⟩ :=
    ((get_update (s := ⟨packaged⟩) h).2.1 ["resolution", "strategy"] (by decide) (by decide)
      .null).2
  refine ⟨h, (hkept ["resolution"] "strategy" [] _ rfl rfl (by decide)).trans ?_⟩
  rw [get_intercalate _ (by decide) (by decide)]
  rfl

end Settings

end PropProver
