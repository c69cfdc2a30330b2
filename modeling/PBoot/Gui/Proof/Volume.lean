import PBoot.Gui.Events

/-!
# The volume keys

`debounced`: in every sequence of calls an event of a volume key comes from a press that has lasted
for more than 30 ms, the next one more than 350 ms later and the others at intervals of more than
150 ms. A key that is held from before the first call has no events.
-/

namespace PBoot

/-! ## Sequences of calls -/

/-- The event of key `k`. -/
def Key.inEvents : Key → Events → Bool
  | .volumeUp, e => e.volumeUp
  | .volumeDown, e => e.volumeDown
  | .none, _ => false

/-- The calls with what they find, and their events. -/
def keyTrace : Gui → List GuiInput → List (GuiInput × Events)
  | _, [] => []
  | g, i :: is =>
    let g' := (guiGetEvents g i).1
    (i, g'.events) :: keyTrace g' is

def Gui.after (g : Gui) (is : List GuiInput) : Gui := is.foldl (fun g i => (guiGetEvents g i).1) g

/-- The timer does not go back. -/
def Forward : Nat → List GuiInput → Prop
  | _, [] => True
  | t, i :: is => t ≤ i.now ∧ i.now ≤ i.timer ∧ Forward i.timer is

/-- The key that the last of some calls found, or `gui_init`. -/
def lastKey (k : Key) (calls : List (GuiInput × Events)) : Key :=
  calls.foldl (fun _ c => c.1.key) k

/-- The times of the events of `k`. -/
def eventTimes (k : Key) (calls : List (GuiInput × Events)) : List Nat :=
  (calls.filter (k.inEvents ·.2)).map (·.1.now)

/-- The second comes more than 350 ms after the first, the others more than 150 ms apart. -/
def Spaced : List Nat → Prop
  | t :: t' :: ts => t + 350000 < t' ∧ (t' :: ts).IsChain (· + 150000 < ·)
  | _ => True

/-- The laws of the volume keys, for calls after a `gui_init` that finds `key`. -/
structure Debounced (key : Key) (calls : List (GuiInput × Events)) : Prop where
  /-- An event ends an unbroken series. -/
  cause : ∀ pre c post k, calls = pre ++ c :: post → k.inEvents c.2 = true →
    ∃ before first during, pre ++ [c] = before ++ first :: during ∧
      (∀ d ∈ first :: during, d.1.key = k) ∧ lastKey key before ≠ k ∧
      first.1.timer + 30000 < c.1.now
  repeats : ∀ before series post k, calls = before ++ series ++ post → lastKey key before ≠ k →
    (∀ d ∈ series, d.1.key = k) → Spaced (eventTimes k series)
  held : ∀ series post, calls = series ++ post → (∀ d ∈ series, d.1.key = key) →
    ∀ d ∈ series, ∀ k, Key.inEvents k d.2 = false
  quiet : ∀ c ∈ calls, c.1.key = .none → ∀ k, Key.inEvents k c.2 = false

/-! ## One call -/

section
variable {g : Gui} {i : GuiInput} {k : Key} {ts : Nat} {rep : Bool}

@[simp] theorem Key.inEvents_none (k : Key) (frameDone : Bool) :
    k.inEvents { Events.none with vblank := frameDone } = false := by
  cases k <;> rfl

@[simp] theorem Key.inEvents_pok (k : Key) (e : Events) (f : BitVec 32) :
    k.inEvents (e.pok f) = k.inEvents e := by
  cases k <;> rfl

@[simp] theorem Key.inEvents_flagRound (k : Key) (e : Events) (r : Nat) (f : BitVec 32) :
    k.inEvents (flagRound e r f).1 = k.inEvents e := by
  unfold flagRound
  split
  · rfl
  · split <;> simp

@[simp] theorem Key.inEvents_clearFlags (k : Key) (read : Nat → PmicResult) (rs : List Nat) (e : Events) :
    k.inEvents (clearFlags read rs e).1 = k.inEvents e := by
  induction rs generalizing e with
  | nil => rfl
  | cons r rs ih => simp [clearFlags, ih]

theorem Key.inEvents_volume (k k' : Key) (e : Events) :
    k.inEvents (e.volume k') = (k.inEvents e || decide (k = k' ∧ k ≠ .none)) := by
  cases k <;> cases k' <;> simp [Key.inEvents, Events.volume]

@[simp] theorem debounce_lastKey (g : Gui) (i : GuiInput) : (g.debounce i).lastKey = i.key := by
  unfold Gui.debounce
  split
  · rfl
  · exact Decidable.of_not_not ‹_›

@[simp] theorem debounce_events (g : Gui) (i : GuiInput) : (g.debounce i).events = g.events := by
  unfold Gui.debounce
  split <;> rfl

@[simp] theorem rearm_lastKey (g : Gui) (now : Nat) : (g.rearm now).lastKey = g.lastKey := by
  unfold Gui.rearm
  split <;> rfl

@[simp] theorem rearm_events (g : Gui) (now : Nat) : (g.rearm now).events = g.events := by
  unfold Gui.rearm
  split <;> rfl

@[simp] theorem rearm_autoRepeat (g : Gui) (now : Nat) : (g.rearm now).autoRepeat = true := by
  unfold Gui.rearm
  split
  · assumption
  · rfl

@[simp] theorem rearm_keyChangeTs (g : Gui) (now : Nat) :
    (g.rearm now).keyChangeTs = now + if g.autoRepeat then 150000 else 350000 := by
  unfold Gui.rearm
  split <;> rfl

/-- The state of the keys: the one that was found last, when its next event is due, and whether it
had one. -/
structure Gui.Keys (g : Gui) (k : Key) (ts : Nat) (rep : Bool) : Prop where
  lastKey : g.lastKey = k
  ts : g.keyChangeTs = ts
  rep : g.autoRepeat = rep

theorem debounce_change (h : g.lastKey ≠ i.key) :
    (g.debounce i).Keys i.key (i.timer + 30000) false := by
  rw [Gui.debounce, if_pos h]
  exact ⟨rfl, rfl, rfl⟩

theorem debounce_withEvents (g : Gui) (e : Events) (i : GuiInput) :
    ({ g with events := e } : Gui).debounce i = { g.debounce i with events := e } := by
  unfold Gui.debounce
  split <;> rfl

theorem debounce_same (h : g.lastKey = i.key) : g.debounce i = g := by
  rw [Gui.debounce, if_neg (not_not.2 h)]

/-- The part for the volume keys starts without an event of theirs. -/
theorem guiGetEvents_fst (g : Gui) (i : GuiInput) : ∃ e, (∀ k, Key.inEvents k e = false) ∧
    (guiGetEvents g i).1 = { ({ g with events := e } : Gui).keys i with now := i.now } := by
  unfold guiGetEvents
  dsimp only
  split
  · exact ⟨_, fun k => by simp, rfl⟩
  · exact ⟨_, fun k => by simp, rfl⟩

/-- Nothing happens before an event is due. -/
theorem events_wait (h : (g.debounce i).Keys i.key ts rep) (hd : ¬ (ts ≠ 0 ∧ ts < i.now)) :
    (guiGetEvents g i).1.Keys i.key ts rep ∧
      ∀ k, Key.inEvents k (guiGetEvents g i).1.events = false := by
  obtain ⟨e, he, hg⟩ := guiGetEvents_fst g i
  obtain ⟨hl, rfl, rfl⟩ := h
  rw [hg, Gui.keys, debounce_withEvents]
  dsimp only
  rw [if_neg hd]
  exact ⟨⟨hl, rfl, rfl⟩, he⟩

/-- Then there is one, and the next one is due later. -/
theorem events_due (h : (g.debounce i).Keys i.key ts rep) (hd : ts ≠ 0 ∧ ts < i.now)
    (hk : i.key ≠ .none) :
    (guiGetEvents g i).1.Keys i.key (i.now + if rep then 150000 else 350000) true ∧
      i.key.inEvents (guiGetEvents g i).1.events = true := by
  obtain ⟨e, he, hg⟩ := guiGetEvents_fst g i
  obtain ⟨hl, rfl, rfl⟩ := h
  rw [hg, Gui.keys, debounce_withEvents]
  dsimp only
  rw [if_pos hd, if_neg hk]
  exact ⟨⟨by simp, by simp, by simp⟩, by simp [Key.inEvents_volume, hk]⟩

/-- An event is one of the key that is pressed. -/
theorem key_of_event (h : k.inEvents (guiGetEvents g i).1.events = true) : i.key = k ∧ k ≠ .none := by
  obtain ⟨e, he, hg⟩ := guiGetEvents_fst g i
  rw [hg, Gui.keys] at h
  dsimp only at h
  split at h
  · simp [Key.inEvents_volume, he] at h
    exact ⟨h.1.symm, h.2⟩
  · simp [he] at h

theorem lastKey_events (g : Gui) (i : GuiInput) : (guiGetEvents g i).1.lastKey = i.key := by
  obtain ⟨e, -, hg⟩ := guiGetEvents_fst g i
  rw [hg, Gui.keys]
  dsimp only
  split <;> simp

end

/-! ## One key -/

section
variable {g : Gui} {i : GuiInput} {is : List GuiInput} {k : Key} {ts : Nat} {rep : Bool}
  {calls : List (GuiInput × Events)} {c : GuiInput × Events}

theorem eventTimes_cons_of_pos (h : k.inEvents c.2 = true) :
    eventTimes k (c :: calls) = c.1.now :: eventTimes k calls := by
  simp [eventTimes, h]

theorem eventTimes_cons_of_neg (h : k.inEvents c.2 = false) :
    eventTimes k (c :: calls) = eventTimes k calls := by
  simp [eventTimes, h]

theorem mem_eventTimes (hc : c ∈ calls) (h : k.inEvents c.2 = true) : c.1.now ∈ eventTimes k calls :=
  List.mem_map.2 ⟨c, List.mem_filter.2 ⟨hc, h⟩, rfl⟩

theorem Gui.Keys.debounce (h : g.Keys i.key ts rep) : (g.debounce i).Keys i.key ts rep := by
  rwa [debounce_same h.lastKey]

theorem chain_cons {l : List Nat} {p : Nat} (h : ∀ t ∈ l, p + 150000 < t)
    (hl : l.IsChain (· + 150000 < ·)) : (p :: l).IsChain (· + 150000 < ·) := by
  cases l with
  | nil => simp
  | cons t l => exact List.isChain_cons_cons.2 ⟨h t List.mem_cons_self, hl⟩

/-- What is due at `ts` comes later, and so does the rest of the events. -/
theorem times_repeating (h : g.Keys k ts true) (hts : ts ≠ 0) (hk : k ≠ .none)
    (his : ∀ i ∈ is, i.key = k) : (∀ t ∈ eventTimes k (keyTrace g is), ts < t) ∧
      (eventTimes k (keyTrace g is)).IsChain (· + 150000 < ·) := by
  induction is generalizing g ts with
  | nil => simp [keyTrace, eventTimes]
  | cons i is ih =>
    obtain ⟨rfl, his⟩ := List.forall_mem_cons.1 his
    rw [keyTrace]
    by_cases hd : ts < i.now
    · obtain ⟨h', he⟩ := events_due h.debounce ⟨hts, hd⟩ hk
      obtain ⟨hlt, hchain⟩ := ih h' (by simp) his
      rw [eventTimes_cons_of_pos he]
      refine ⟨List.forall_mem_cons.2 ⟨hd, fun t ht => ?_⟩, chain_cons (by simpa using hlt) hchain⟩
      have := hlt t ht
      omega
    · obtain ⟨h', he⟩ := events_wait h.debounce fun hd' => hd hd'.2
      rw [eventTimes_cons_of_neg (he _)]
      exact ih h' hts his

/-- The same before the first event. -/
theorem times_waiting (h : g.Keys k ts false) (hts : ts ≠ 0) (hk : k ≠ .none)
    (his : ∀ i ∈ is, i.key = k) : (∀ t ∈ eventTimes k (keyTrace g is), ts < t) ∧
      Spaced (eventTimes k (keyTrace g is)) := by
  induction is generalizing g with
  | nil => simp [keyTrace, eventTimes, Spaced]
  | cons i is ih =>
    obtain ⟨rfl, his⟩ := List.forall_mem_cons.1 his
    rw [keyTrace]
    by_cases hd : ts < i.now
    · obtain ⟨h', he⟩ := events_due h.debounce ⟨hts, hd⟩ hk
      obtain ⟨hlt, hchain⟩ := times_repeating h' (by simp) hk his
      rw [eventTimes_cons_of_pos he]
      refine ⟨List.forall_mem_cons.2 ⟨hd, fun t ht => ?_⟩, ?_⟩
      · have := hlt t ht
        omega
      · rcases htimes : eventTimes i.key (keyTrace (guiGetEvents g i).1 is) with _ | ⟨t, ts⟩
        · trivial
        · rw [htimes] at hlt hchain
          exact ⟨by simpa using hlt t List.mem_cons_self, hchain⟩
    · obtain ⟨h', he⟩ := events_wait h.debounce fun hd' => hd hd'.2
      rw [eventTimes_cons_of_neg (he _)]
      exact ih h' his

/-- A series that starts with a change. -/
theorem times_series (h : g.lastKey ≠ i.key) (ht : i.now ≤ i.timer) (hk : i.key ≠ .none)
    (his : ∀ j ∈ is, j.key = i.key) :
    (∀ t ∈ eventTimes i.key (keyTrace g (i :: is)), i.timer + 30000 < t) ∧
      Spaced (eventTimes i.key (keyTrace g (i :: is))) := by
  obtain ⟨h', he⟩ := events_wait (debounce_change h) (by omega)
  rw [keyTrace]
  rw [eventTimes_cons_of_neg (he _)]
  exact times_waiting h' (by omega) hk his

/-- A key that `gui_init` finds. -/
theorem events_held (h : g.Keys k 0 rep) (his : ∀ i ∈ is, i.key = k) :
    ∀ d ∈ keyTrace g is, ∀ k', Key.inEvents k' d.2 = false := by
  induction is generalizing g with
  | nil => simp [keyTrace]
  | cons i is ih =>
    obtain ⟨rfl, his⟩ := List.forall_mem_cons.1 his
    obtain ⟨h', he⟩ := events_wait h.debounce (by simp)
    exact List.forall_mem_cons.2 ⟨he, ih h' his⟩

end

/-! ## Many calls -/

section
variable {g : Gui} {is : List GuiInput} {k : Key} {a b during : List (GuiInput × Events)}
  {c : GuiInput × Events} {t : Nat}

theorem keyTrace_eq_append (h : keyTrace g is = a ++ b) :
    ∃ ia ib, is = ia ++ ib ∧ keyTrace g ia = a ∧ keyTrace (g.after ia) ib = b := by
  induction a generalizing g is with
  | nil => exact ⟨[], is, rfl, rfl, h⟩
  | cons c a ih =>
    cases is with
    | nil => cases h
    | cons i is =>
      rw [keyTrace, List.cons_append] at h
      obtain ⟨hc, hrest⟩ := List.cons.inj h
      obtain ⟨ia, ib, rfl, rfl, rfl⟩ := ih hrest
      subst hc
      exact ⟨i :: ia, ib, rfl, rfl, rfl⟩

theorem lastKey_after (g : Gui) (is : List GuiInput) :
    (g.after is).lastKey = lastKey g.lastKey (keyTrace g is) := by
  induction is generalizing g with
  | nil => rfl
  | cons i is ih =>
    have h := ih (guiGetEvents g i).1
    rw [lastKey_events] at h
    exact h

theorem Forward.append_right {ia ib : List GuiInput} (h : Forward t (ia ++ ib)) :
    ∃ t', Forward t' ib := by
  induction ia generalizing t with
  | nil => exact ⟨t, h⟩
  | cons i ia ih => exact ih h.2.2

theorem trace_key (h : c ∈ keyTrace g is) (he : k.inEvents c.2 = true) :
    c.1.key = k ∧ k ≠ .none := by
  induction is generalizing g with
  | nil => cases h
  | cons i is ih =>
    rcases List.mem_cons.1 h with rfl | h
    · exact key_of_event he
    · exact ih h

theorem keys_of_trace (h : ∀ d ∈ keyTrace g is, d.1.key = k) : ∀ i ∈ is, i.key = k := by
  induction is generalizing g with
  | nil => simp
  | cons i is ih =>
    obtain ⟨hi, h⟩ := List.forall_mem_cons.1 h
    exact List.forall_mem_cons.2 ⟨hi, ih h⟩

/-- The longest series of calls that found `k`, at the end of some calls. -/
theorem exists_series (k key : Key) (calls : List (GuiInput × Events)) :
    ∃ before series, calls = before ++ series ∧ (∀ d ∈ series, d.1.key = k) ∧
      (lastKey key before ≠ k ∨ before = []) := by
  induction calls using List.reverseRecOn with
  | nil => exact ⟨[], [], rfl, by simp, .inr rfl⟩
  | append_singleton calls c ih =>
    by_cases hc : c.1.key = k
    · obtain ⟨before, series, rfl, hs, hb⟩ := ih
      refine ⟨before, series ++ [c], by simp, fun d hd => ?_, hb⟩
      rcases List.mem_append.1 hd with hd | hd
      · exact hs d hd
      · rwa [List.mem_singleton.1 hd]
    · exact ⟨calls ++ [c], [], by simp, by simp, .inl (by simpa [lastKey] using hc)⟩

/-- The events of a series that starts with a change. -/
theorem series_spec (hf : Forward t is) (hc : keyTrace g is = a ++ (c :: during) ++ b)
    (hlast : lastKey g.lastKey a ≠ k) (hs : ∀ d ∈ c :: during, d.1.key = k) (hk : k ≠ .none) :
    (∀ t ∈ eventTimes k (c :: during), c.1.timer + 30000 < t) ∧
      Spaced (eventTimes k (c :: during)) := by
  rw [List.append_assoc] at hc
  obtain ⟨ia, ib, rfl, rfl, hib⟩ := keyTrace_eq_append hc
  obtain ⟨ib, ic, rfl, hser, -⟩ := keyTrace_eq_append hib
  obtain ⟨t', ht'⟩ := hf.append_right
  rw [← lastKey_after] at hlast
  rcases ib with _ | ⟨i, ib⟩
  · cases hser
  · rw [← hser] at hs ⊢
    obtain ⟨rfl, hdur⟩ := List.forall_mem_cons.1 hs
    obtain ⟨rfl, -⟩ := List.cons.inj hser
    refine times_series hlast ht'.2.1 hk fun j hj => ?_
    exact keys_of_trace (g := (guiGetEvents (g.after ia) i).1) hdur j hj

end

section
variable {is : List GuiInput} {t : Nat}

/-- **The laws of the volume keys**, for every sequence of calls. -/
theorem debounced (h : Forward t is) (key : Key) : Debounced key (keyTrace (.init t key) is) := by
  have hheld : ∀ series post, keyTrace (.init t key) is = series ++ post →
      (∀ d ∈ series, d.1.key = key) → ∀ d ∈ series, ∀ k, Key.inEvents k d.2 = false := by
    intro series post hc hs
    obtain ⟨ia, ib, rfl, rfl, -⟩ := keyTrace_eq_append hc
    exact events_held ⟨rfl, rfl, rfl⟩ (keys_of_trace hs)
  refine ⟨fun pre c post k hc he => ?_, fun before series post k hc hlast hs => ?_, hheld,
    fun c hc hn k => ?_⟩
  · obtain ⟨hkey, hk⟩ := trace_key (hc ▸ List.mem_append_right pre List.mem_cons_self) he
    obtain ⟨before, series, hpre, hs, hlast⟩ := exists_series k key (pre ++ [c])
    have hcalls : keyTrace (.init t key) is = before ++ series ++ post := by
      rw [← hpre, hc, List.append_assoc]
      rfl
    rcases series with _ | ⟨first, during⟩
    · -- the call with the event did find `k`
      rw [List.append_nil] at hpre
      subst hpre
      rcases hlast with hlast | hnil
      · exact absurd (by simpa [lastKey] using hkey) hlast
      · simp at hnil
    · have hmem : c ∈ first :: during := by
        have hl := congrArg List.getLast? hpre
        rw [List.getLast?_concat, List.getLast?_append_of_ne_nil _ (List.cons_ne_nil _ _)] at hl
        exact List.mem_of_getLast? hl.symm
      have hlast' : lastKey key before ≠ k := by
        rcases hlast with hlast | rfl
        · exact hlast
        · rintro rfl
          rw [hheld _ post hcalls hs c hmem] at he
          cases he
      obtain ⟨hlt, -⟩ := series_spec h hcalls hlast' hs hk
      exact ⟨before, first, during, hpre, hs, hlast', hlt _ (mem_eventTimes hmem he)⟩
  · rcases series with _ | ⟨first, during⟩
    · trivial
    · by_cases hk : k = .none
      · subst hk
        simp [eventTimes, Key.inEvents, Spaced]
      · exact (series_spec h hc hlast hs hk).2
  · by_contra he
    obtain ⟨rfl, hk⟩ := trace_key hc (Bool.not_eq_false _ ▸ he)
    exact hk hn

end

/-- A press for 60 ms, looked at every 20 ms. -/
def onePress : List GuiInput :=
  [(0, .none), (20000, .volumeUp), (40000, .volumeUp), (60000, .volumeUp), (80000, .none)].map
    fun (t, key) => { now := t, frameDone := true, pending := false, pmic := fun _ => .byte 0, key
                      timer := t }

theorem debounced_onePress : Forward 0 onePress ∧ Debounced .none (keyTrace (.init 0 .none) onePress) :=
  have h : Forward 0 onePress := by simp [Forward, onePress]
  ⟨h, debounced h .none⟩

example : eventTimes .volumeUp (keyTrace (.init 0 .none) onePress) = [60000] := by decide

end PBoot
