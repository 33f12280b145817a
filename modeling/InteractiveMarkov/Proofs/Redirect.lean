import InteractiveMarkov.Proofs.Statuses
import InteractiveMarkov.Redirect

set_option autoImplicit false

namespace InteractiveMarkov.RedirectMap

/-- Following redirects from the first state ends at the second, which is not redirected. -/
inductive Ends (m : RedirectMap) : StateId → StateId → Prop
  | stop {s : StateId} : m[s]? = none → Ends m s s
  | step {s c : StateId} {redirect : Redirect} :
      m[s]? = some redirect → Ends m redirect.target c → Ends m s c

def Points (m : RedirectMap) (s t : StateId) : Prop := ∃ redirect, m[s]? = some redirect ∧
  redirect.target = t

variable {m after : RedirectMap} {s t c d : StateId}

theorem ends_final (h : Ends m s c) : m[c]? = none := by
  induction h with
  | stop hnone => exact hnone
  | step _ _ ih => exact ih

theorem ends_of_none (hs : m[s]? = none) : Ends m s c ↔ c = s := by
  constructor
  · intro h
    cases h with
    | stop => rfl
    | step hsome _ => rw [hs] at hsome; cases hsome
  · rintro rfl
    exact .stop hs

theorem ends_of_some {redirect : Redirect} (hs : m[s]? = some redirect) :
    Ends m s c ↔ Ends m redirect.target c := by
  constructor
  · intro h
    cases h with
    | stop hnone => rw [hs] at hnone; cases hnone
    | step hsome hrest =>
      rw [hs] at hsome
      cases hsome
      exact hrest
  · exact .step hs

theorem ends_unique (hc : Ends m s c) (hd : Ends m s d) : c = d := by
  induction hc with
  | stop hnone => exact ((ends_of_none hnone).1 hd).symm
  | step hsome _ ih => exact ih ((ends_of_some hsome).1 hd)

theorem points_unique (ht : Points m s t) (hd : Points m s d) : t = d := by
  obtain ⟨redirect, hsome, rfl⟩ := ht
  obtain ⟨other, hother, rfl⟩ := hd
  rw [hsome] at hother
  cases hother
  rfl

theorem ends_of_points (h : Points m s t) : Ends m s c ↔ Ends m t c := by
  obtain ⟨redirect, hsome, rfl⟩ := h
  exact ends_of_some hsome

theorem ends_of_path (h : Relation.ReflTransGen (Points m) s t) : Ends m s c ↔ Ends m t c := by
  induction h with
  | refl => rfl
  | tail _ hlast ih => exact ih.trans (ends_of_points hlast)

theorem not_ends_of_cycle (h : Relation.TransGen (Points m) s s) : ¬ Ends m s c := by
  intro hend
  induction hend with
  | stop hnone =>
    obtain ⟨t, ⟨redirect, hsome, -⟩, -⟩ := Relation.TransGen.head'_iff.1 h
    rw [hnone] at hsome
    cases hsome
  | @step s c redirect hsome _ ih =>
    have hpoint : Points m s redirect.target := ⟨redirect, hsome, rfl⟩
    obtain ⟨t, hfirst, hback⟩ := Relation.TransGen.head'_iff.1 h
    obtain rfl := points_unique hpoint hfirst
    exact ih (Relation.TransGen.tail' hback hpoint)

theorem order_meet {passed : Search} (hs : s ∉ passed.seen) :
    (passed.meet s).order.toList = passed.order.toList ++ [s] := by
  simp [Search.meet, hs]

theorem walk_settles {passed : Search} {path : List StateId} {final : StateId}
    (h : m.walk passed s = .settles path final) :
    Ends m s final ∧ passed.order.toList ⊆ path ∧ (s ∈ m → s ∈ path) ∧
    ∀ p ∈ path, p ∈ passed.order.toList ∨ p ∈ m ∧ Ends m p final := by
  fun_induction walk m passed s with
  | case1 passed s hnone =>
    cases h
    refine ⟨.stop hnone, List.Subset.refl _, fun hmem => ?_, fun p hp => .inl hp⟩
    rw [Std.ExtTreeMap.mem_iff_isSome_getElem?, hnone] at hmem
    cases hmem
  | case2 passed s redirect hsome hseen => cases h
  | case3 passed s redirect hsome hseen ih =>
    obtain ⟨hend, hsub, -, hpath⟩ := ih h
    rw [order_meet hseen] at hsub hpath
    have hs : Ends m s final := .step hsome hend
    have hmem : s ∈ m := StateMap.mem_of_getElem? hsome
    refine ⟨hs, fun p hp => hsub (List.mem_append_left _ hp), fun _ => hsub (by simp), ?_⟩
    intro p hp
    rcases hpath p hp with hp | hp
    · rcases List.mem_append.1 hp with hp | hp
      · exact .inl hp
      · obtain rfl : p = s := by simpa using hp
        exact .inr ⟨hmem, hs⟩
    · exact .inr hp

theorem walk_returns {passed : Search} (h : m.walk passed s = .returns t)
    (hp : ∀ p ∈ passed.seen, Relation.TransGen (Points m) p s) :
    Relation.ReflTransGen (Points m) s t ∧ Relation.TransGen (Points m) t t := by
  fun_induction walk m passed s with
  | case1 passed s hnone => cases h
  | case2 passed s redirect hsome hseen =>
    cases h
    exact ⟨.refl, hp _ hseen⟩
  | case3 passed s redirect hsome hseen ih =>
    have hpoint : Points m s redirect.target := ⟨redirect, hsome, rfl⟩
    obtain ⟨hlead, hcycle⟩ := ih h fun p hmem => by
      rcases (Search.mem_seen_meet passed s p).1 hmem with rfl | hmem
      · exact .single hpoint
      · exact (hp p hmem).tail hpoint
    exact ⟨.head hpoint hlead, hcycle⟩

theorem walkFrom_settles {path : List StateId} {final : StateId}
    (h : m.walkFrom s = .settles path final) :
    Ends m s final ∧ (s ∈ m → s ∈ path) ∧ ∀ p ∈ path, p ∈ m ∧ Ends m p final := by
  obtain ⟨hend, -, hself, hpath⟩ := walk_settles h
  refine ⟨hend, hself, fun p hp => (hpath p hp).resolve_left ?_⟩
  simp [Search.start]

theorem walkFrom_returns (h : m.walkFrom s = .returns t) :
    Relation.ReflTransGen (Points m) s t ∧ Relation.TransGen (Points m) t t :=
  walk_returns h fun p hp => by simp [Search.start] at hp

theorem not_ends_of_returns (h : m.walkFrom s = .returns t) : ¬ Ends m s c := by
  obtain ⟨hlead, hcycle⟩ := walkFrom_returns h
  exact fun hend => not_ends_of_cycle hcycle ((ends_of_path hlead).1 hend)

theorem getElem?_retarget (m : RedirectMap) (path : List StateId) (final s : StateId) :
    (m.retarget path final)[s]? =
      m[s]?.map fun redirect => if s ∈ path then { redirect with target := final } else redirect := by
  induction path generalizing m with
  | nil => simp [retarget]
  | cons p rest ih =>
    have hstep := ih (m.modify p fun redirect => { redirect with target := final })
    simp only [retarget, List.foldl_cons] at hstep ⊢
    rw [hstep, Std.ExtTreeMap.getElem?_modify]
    by_cases hp : p = s
    · subst hp
      cases m[p]? with
      | none => simp
      | some redirect => simp
    · have hne : ¬ s = p := fun h => hp h.symm
      simp [hp, hne]

theorem ends_retarget {path : List StateId} {final : StateId}
    (hpath : ∀ p ∈ path, p ∈ m ∧ Ends m p final) :
    Ends (m.retarget path final) s c ↔ Ends m s c := by
  have hget := getElem?_retarget m path final
  have hnone : ∀ u : StateId, m[u]? = none → (m.retarget path final)[u]? = none := by
    intro u hu
    rw [hget u, hu]
    rfl
  constructor
  · intro h
    -- a state of the path jumps to the end of its chain, any other takes its old step
    induction h with
    | @stop s hstop =>
      rw [hget s, Option.map_eq_none_iff] at hstop
      exact .stop hstop
    | @step s c redirect hsome _ ih =>
      rw [hget s] at hsome
      obtain ⟨old, hold, rfl⟩ := Option.map_eq_some_iff.1 hsome
      by_cases hs : s ∈ path
      · rw [if_pos hs] at ih
        obtain rfl := (ends_of_none (ends_final (hpath s hs).2)).1 ih
        exact (hpath s hs).2
      · rw [if_neg hs] at ih
        exact .step hold ih
  · intro h
    induction h with
    | @stop s hstop => exact .stop (hnone s hstop)
    | @step s c redirect hsome hrest ih =>
      by_cases hs : s ∈ path
      · obtain rfl := ends_unique (hpath s hs).2 (.step hsome hrest)
        have hnew : (m.retarget path final)[s]? = some { redirect with target := final } := by
          rw [hget s, hsome, Option.map_some, if_pos hs]
        exact .step hnew (.stop (hnone _ (ends_final hrest)))
      · have hnew : (m.retarget path final)[s]? = some redirect := by
          rw [hget s, hsome, Option.map_some, if_neg hs]
        exact .step hnew ih

/-- A state whose chain ends at the given one, or that one itself, has the status. -/
def Basin (m : RedirectMap) (table : StatusTable) (c : StateId) (x : Status) : Prop :=
  ∃ s, Ends m s c ∧ table[s]? = some x

theorem holds_carried {table : StatusTable} {path : List StateId} {final : StateId} {x : Status} :
    table.Holds (carried table path final) t x ↔
      table[t]? = some x ∨ final = t ∧ ∃ p ∈ path, table[p]? = some x := by
  refine or_congr_right ?_
  unfold carried
  constructor
  · rintro ⟨demand, hmem, rfl, rfl⟩
    obtain ⟨p, hp, hdemand⟩ := List.mem_filterMap.1 hmem
    obtain ⟨status, hstatus, rfl⟩ := Option.map_eq_some_iff.1 hdemand
    exact ⟨rfl, p, hp, hstatus⟩
  · rintro ⟨rfl, p, hp, hx⟩
    exact ⟨⟨final, x, .chain x p⟩, List.mem_filterMap.2 ⟨p, hp, by rw [hx]; rfl⟩, rfl, rfl⟩

/-- What holds while the sources collapsed so far are those of a list. -/
structure CollapseTo (m : RedirectMap) (table : StatusTable) (handled : List StateId)
    (after : RedirectMap) (statuses : StatusTable) : Prop where
  ends : ∀ s c, Ends after s c ↔ Ends m s c
  labels : ∀ s : StateId, after[s]?.map Redirect.label = m[s]?.map Redirect.label
  settled : ∀ s ∈ handled, ∀ t : StateId, Points after s t → after[t]? = none
  keeps : ∀ (s : StateId) (x : Status), table[s]? = some x → statuses[s]? = some x
  sound : ∀ (s : StateId) (x : Status), statuses[s]? = some x →
    table[s]? = some x ∨ Basin m table s x
  moved : ∀ s ∈ handled, ∀ (c : StateId) (x : Status), Ends m s c → table[s]? = some x →
    statuses[c]? = some x

variable {table statuses next : StatusTable} {handled : List StateId}

theorem collapseTo_start : CollapseTo m table [] m table where
  ends _ _ := Iff.rfl
  labels _ := rfl
  settled s hs := by simp at hs
  keeps _ _ h := h
  sound _ _ h := .inl h
  moved s hs := by simp at hs

theorem CollapseTo.mem_iff (h : CollapseTo m table handled after statuses) : s ∈ after ↔ s ∈ m := by
  rw [Std.ExtTreeMap.mem_iff_isSome_getElem?, Std.ExtTreeMap.mem_iff_isSome_getElem?,
    ← Option.isSome_map (f := Redirect.label), h.labels s, Option.isSome_map]

theorem CollapseTo.known (h : CollapseTo m table handled after statuses) {x : Status}
    (hs : s ∈ m) (hx : statuses[s]? = some x) : table[s]? = some x := by
  refine (h.sound s x hx).resolve_right ?_
  rintro ⟨u, hend, -⟩
  rw [Std.ExtTreeMap.mem_iff_isSome_getElem?, ends_final hend] at hs
  cases hs

theorem CollapseTo.advance (h : CollapseTo m table handled after statuses) (hs : s ∈ m)
    {path : List StateId} {final : StateId} (hwalk : after.walkFrom s = .settles path final)
    (hrun : statuses.assignAll (carried statuses path final) = (next, none)) :
    CollapseTo m table (handled ++ [s]) (after.retarget path final) next := by
  obtain ⟨hend, hself, hpath⟩ := walkFrom_settles hwalk
  have hin : s ∈ path := hself (h.mem_iff.2 hs)
  have hget : ∀ (t : StateId) (x : Status), next[t]? = some x ↔
      statuses[t]? = some x ∨ final = t ∧ ∃ p ∈ path, statuses[p]? = some x :=
    fun t x => (StatusTable.assignAll_none hrun t x).trans holds_carried
  have hredirect := getElem?_retarget after path final
  refine ⟨?_, ?_, ?_, ?_, ?_, ?_⟩
  · intro u c
    exact (ends_retarget hpath).trans (h.ends u c)
  · intro u
    rw [hredirect u, ← h.labels u]
    cases after[u]? with
    | none => rfl
    | some redirect =>
      by_cases hu : u ∈ path <;> simp [hu]
  · intro u hu t ht
    obtain ⟨redirect, hsome, rfl⟩ := ht
    rw [hredirect u] at hsome
    obtain ⟨old, hold, rfl⟩ := Option.map_eq_some_iff.1 hsome
    rw [hredirect, Option.map_eq_none_iff]
    -- a state of the path points at its end now; any other was settled before this source
    by_cases hp : u ∈ path
    · rw [if_pos hp]
      exact ends_final hend
    · rw [if_neg hp]
      have hdone : u ∈ handled := by
        rcases List.mem_append.1 hu with hu | hu
        · exact hu
        · obtain rfl : u = s := by simpa using hu
          exact absurd hin hp
      exact h.settled u hdone _ ⟨old, hold, rfl⟩
  · intro u x hx
    exact (hget u x).2 (.inl (h.keeps u x hx))
  · intro u x hx
    rcases (hget u x).1 hx with hx | ⟨rfl, p, hp, hx⟩
    · exact h.sound u x hx
    · obtain ⟨hpm, hpend⟩ := hpath p hp
      exact .inr ⟨p, (h.ends p final).1 hpend, h.known (h.mem_iff.1 hpm) hx⟩
  · intro u hu c x hc hx
    rcases List.mem_append.1 hu with hu | hu
    · exact (hget c x).2 (.inl (h.moved u hu c x hc hx))
    · obtain rfl : u = s := by simpa using hu
      obtain rfl := ends_unique hc ((h.ends u final).1 hend)
      exact (hget c x).2 (.inr ⟨rfl, u, hin, h.keeps u x hx⟩)

theorem collapseFrom_none {initial : StateId} {rest : List StateId} {last : RedirectMap}
    (h : CollapseTo m table handled after statuses) (hrest : ∀ s ∈ rest, s ∈ m)
    (hrun : collapseFrom initial rest after statuses = ⟨last, next, none⟩) :
    CollapseTo m table (handled ++ rest) last next := by
  -- on the sources left; ends are those of the redirects at the start throughout
  induction rest generalizing handled after statuses with
  | nil =>
    cases hrun
    simpa using h
  | cons s rest ih =>
    unfold collapseFrom at hrun
    split at hrun
    · cases hrun
    · rename_i path final hwalk
      split at hrun
      · cases hrun
      · rename_i found hfound
        have hstep := h.advance (hrest s List.mem_cons_self) hwalk hfound
        have hall := ih hstep (fun t ht => hrest t (List.mem_cons_of_mem s ht)) hrun
        simpa using hall

theorem collapseFrom_some {initial : StateId} {rest : List StateId} {last : RedirectMap}
    {e : Error} (h : CollapseTo m table handled after statuses) (hrest : ∀ s ∈ rest, s ∈ m)
    (hrun : collapseFrom initial rest after statuses = ⟨last, next, some e⟩) :
    (∃ s ∈ rest, ∃ t found known, CollapseTo m table found last known ∧
      last.walkFrom s = .returns t ∧ e = last.cycleError initial t) ∨
    ∃ c x y cause, x ≠ y ∧ Basin m table c x ∧ Basin m table c y ∧ e = .conflict c x y cause := by
  induction rest generalizing handled after statuses with
  | nil => cases hrun
  | cons s rest ih =>
    unfold collapseFrom at hrun
    split at hrun
    · rename_i t hwalk
      cases hrun
      exact .inl ⟨s, List.mem_cons_self, t, handled, _, h, hwalk, rfl⟩
    · rename_i path final hwalk
      split at hrun
      · rename_i found fault hfault
        cases hrun
        obtain ⟨hend, -, hpath⟩ := walkFrom_settles hwalk
        obtain ⟨demand, hmem, x, hne, hold, rfl⟩ := StatusTable.assignAll_some hfault
        obtain ⟨p, hp, hdemand⟩ := List.mem_filterMap.1 hmem
        obtain ⟨y, hy, rfl⟩ := Option.map_eq_some_iff.1 hdemand
        have hbasin : ∀ p ∈ path, ∀ z : Status, statuses[p]? = some z → Basin m table final z :=
          fun p hp z hz => ⟨p, (h.ends p final).1 (hpath p hp).2,
            h.known (h.mem_iff.1 (hpath p hp).1) hz⟩
        have hfinal : Ends m final final := .stop (ends_final ((h.ends s final).1 hend))
        refine .inr ⟨final, x, y, _, hne, ?_, hbasin p hp y hy, rfl⟩
        rcases holds_carried.1 hold with hx | ⟨-, q, hq, hx⟩
        · exact (h.sound final x hx).elim (fun hx => ⟨final, hfinal, hx⟩) id
        · exact hbasin q hq x hx
      · rename_i found hfound
        have hstep := h.advance (hrest s List.mem_cons_self) hwalk hfound
        rcases ih hstep (fun t ht => hrest t (List.mem_cons_of_mem s ht)) hrun with hcase | hcase
        · obtain ⟨u, hu, hcase⟩ := hcase
          exact .inl ⟨u, List.mem_cons_of_mem s hu, hcase⟩
        · exact .inr hcase

theorem collapse_none {initial : StateId}
    (h : m.collapse initial table = ⟨after, statuses, none⟩) :
    (∀ s, Ends m s (after.resolve s)) ∧
    (∀ s : StateId, after[s]?.map Redirect.label = m[s]?.map Redirect.label) ∧
    ∀ (s : StateId) (x : Status),
      statuses[s]? = some x ↔ table[s]? = some x ∨ Basin m table s x := by
  have hall := collapseFrom_none collapseTo_start
    (fun s hs => Std.ExtTreeMap.mem_of_mem_keys hs) h
  rw [List.nil_append] at hall
  refine ⟨fun s => ?_, hall.labels, fun s x => ⟨hall.sound s x, ?_⟩⟩
  · rw [← hall.ends]
    unfold resolve
    split
    · rename_i redirect hsome
      have hmem : s ∈ m :=
        hall.mem_iff.1 (StateMap.mem_of_getElem? hsome)
      exact .step hsome (.stop (hall.settled s (Std.ExtTreeMap.mem_keys.2 hmem) _
        ⟨redirect, hsome, rfl⟩))
    · rename_i hnone
      exact .stop hnone
  · rintro (hx | ⟨u, hend, hx⟩)
    · exact hall.keeps s x hx
    · cases hu : m[u]? with
      | none =>
        obtain rfl := (ends_of_none hu).1 hend
        exact hall.keeps s x hx
      | some redirect =>
        have hmem : u ∈ m := StateMap.mem_of_getElem? hu
        exact hall.moved u (Std.ExtTreeMap.mem_keys.2 hmem) s x hend hx

/-- Collapsing succeeds exactly if every chain ends and no end receives two statuses. -/
theorem collapse_none_iff (m : RedirectMap) (initial : StateId) (table : StatusTable) :
    (m.collapse initial table).fault = none ↔
      (∀ s, ∃ c, Ends m s c) ∧ StatusTable.Agree (Basin m table) := by
  rcases hrun : m.collapse initial table with ⟨last, next, _ | e⟩
  · obtain ⟨hends, -, hget⟩ := collapse_none hrun
    refine iff_of_true rfl ⟨fun s => ⟨_, hends s⟩, fun c x y hx hy => ?_⟩
    exact Option.some.inj (((hget c x).2 (.inr hx)).symm.trans ((hget c y).2 (.inr hy)))
  · refine iff_of_false (by simp) ?_
    rintro ⟨hends, hagree⟩
    rcases collapseFrom_some collapseTo_start (fun s hs => Std.ExtTreeMap.mem_of_mem_keys hs)
      hrun with ⟨s, -, t, found, known, hto, hwalk, -⟩ | ⟨c, x, y, -, hne, hx, hy, -⟩
    · obtain ⟨c, hc⟩ := hends s
      exact not_ends_of_returns hwalk ((hto.ends s c).2 hc)
    · exact hne (hagree c x y hx hy)

end InteractiveMarkov.RedirectMap
