import PBoot.Conf.Proof.Files

/-!
# Whatever text is accepted, the table is well formed

What the lines of `boot.conf` do is kept as a history: the device ids that are taken
(`takenIds`) and the configurations that are put into their slots (`completed`).

* `line_complete`: one line, with what it adds to the history.
* `confs_completed`: after any lines the slots hold the configurations of the history, and no slot
  was assigned twice.
* `wellFormed_parseConf`: the table that `parse_conf` leaves (`WellFormed`).
-/

namespace PBoot

open Bytes Text Runs

/-! ## The history of a run -/

/-- The name and the value that the piece of the file in `line` sets. -/
def lineSetting (line : List UInt8) : Option (List UInt8 × List UInt8) := setting (cstr line)

/-- The device ids that `lines` give, in order. -/
def takenIds (lines : List (List UInt8)) : List (List UInt8) :=
  (lines.filterMap lineSetting).filterMap fun s => if s.1 = ascii "device_id" then some s.2 else none

/-- The configurations that `line` puts into their slots: the one that a `no` line ends. -/
def lineCompleted (st : ParseState) (line : List UInt8) : List BConf :=
  if (lineSetting line).map (·.1) = some (ascii "no") then st.conf.toList else []

/-- The configurations that `complete_conf` puts into their slots, in order, when the loop takes
`lines` from `st` on and the text ends. -/
def completed (host : Host) : ParseState → List (List UInt8) → List BConf
  | st, [] => st.conf.toList
  | st, line :: lines =>
    match parseLine host st line with
    | .ok st' => lineCompleted st line ++ completed host st' lines
    | .error _ => []

/-- A configuration is put into its slot. -/
def assign (confs : Nat → Option BConf) (c : BConf) : Nat → Option BConf :=
  Function.update confs c.index (some c)

/-! ## One line -/

section
variable {host : Host} {st st' : ParseState} {line : List UInt8} {confs : Nat → Option BConf}

/-- What is put into a slot goes into a free one. -/
theorem complete_assign (h : st.complete = .ok confs) :
    confs = st.conf.toList.foldl assign st.confs ∧
      ∀ c ∈ st.conf.toList, st.confs c.index = none := by
  unfold ParseState.complete at h
  split at h
  · rename_i hc
    cases h
    simp [hc]
  · rename_i c hc
    obtain ⟨hfree, -, -, rfl⟩ := completeConf_ok h
    simp [hc, hfree, assign]

/-- A line that is accepted puts into slots what the history says, and only into free slots. -/
theorem line_complete (h : parseLine host st line = .ok st') :
    st'.confs = (lineCompleted st line).foldl assign st.confs ∧
      (∀ c ∈ lineCompleted st line, st.confs c.index = none) ∧
      ((lineCompleted st line).map (·.index)).Nodup := by
  have hkeep : ∀ {st₁ : ParseState}, lineCompleted st line = [] → st₁.confs = st.confs →
      st₁.confs = (lineCompleted st line).foldl assign st.confs ∧
        (∀ c ∈ lineCompleted st line, st.confs c.index = none) ∧
        ((lineCompleted st line).map (·.index)).Nodup := by
    intro st₁ hnil hconfs
    simp [hnil, hconfs]
  unfold parseLine at h
  dsimp only at h
  split at h
  · rename_i hset
    cases h
    exact hkeep (by simp [lineCompleted, lineSetting, hset]) rfl
  · rename_i name val hset
    have hno : name ≠ ascii "no" → lineCompleted st line = [] := fun hne => by
      simp [lineCompleted, lineSetting, hset, hne]
    rcases applySetting_cases h with ⟨hname, h⟩ | ⟨hname, h⟩ |
      ⟨⟨-, hname⟩, c, hc, rfl | ⟨ty, -, h⟩⟩
    · obtain ⟨-, rfl, -⟩ := setDeviceId_ok h
      exact hkeep (hno (by rw [hname]; decide)) rfl
    · obtain ⟨confs, hc, -, -, rfl⟩ := setNo_ok h
      obtain ⟨hconfs, hfree⟩ := complete_assign hc
      have hline : lineCompleted st line = st.conf.toList := by
        simp [lineCompleted, lineSetting, hset, hname]
      rw [hline]
      exact ⟨hconfs, hfree, by cases st.conf <;> simp⟩
    · exact hkeep (hno hname) rfl
    · obtain ⟨r, data, -, -, rfl⟩ := setImage_ok h
      exact hkeep (hno hname) rfl

/-- A line that is accepted takes a device id where there is none yet. -/
theorem line_deviceId (h : parseLine host st line = .ok st')
    (hid : ∀ id ∈ st.deviceId, id.length ≤ 31) :
    st'.deviceId.toList = st.deviceId.toList ++ takenIds [line] ∧
      ∀ id ∈ st'.deviceId, id.length ≤ 31 := by
  unfold parseLine at h
  dsimp only at h
  split at h
  · rename_i hset
    cases h
    exact ⟨by simp [takenIds, lineSetting, hset], hid⟩
  · rename_i name val hset
    have hother : name ≠ ascii "device_id" → takenIds [line] = [] := fun hne => by
      simp [takenIds, lineSetting, hset, hne]
    have hkeep : ∀ {st₁ : ParseState}, takenIds [line] = [] → st₁.deviceId = st.deviceId →
        st₁.deviceId.toList = st.deviceId.toList ++ takenIds [line] ∧
          ∀ id ∈ st₁.deviceId, id.length ≤ 31 := by
      intro st₁ hnil heq
      rw [hnil, heq, List.append_nil]
      exact ⟨rfl, hid⟩
    rcases applySetting_cases h with ⟨hname, h⟩ | ⟨hname, h⟩ |
      ⟨⟨hname, -⟩, c, hc, rfl | ⟨ty, -, h⟩⟩
    · obtain ⟨hnone, rfl, hlen⟩ := setDeviceId_ok h
      refine ⟨?_, fun id hmem => ?_⟩
      · rw [show st.deviceId = none from hnone]
        simp [takenIds, lineSetting, hset, hname]
      · cases hmem
        exact hlen
    · obtain ⟨confs, -, -, -, rfl⟩ := setNo_ok h
      exact hkeep (hother (by rw [hname]; decide)) rfl
    · exact hkeep (hother hname) rfl
    · obtain ⟨r, data, -, -, rfl⟩ := setImage_ok h
      exact hkeep (hother hname) rfl

/-! ## All lines -/

theorem takenIds_cons (line : List UInt8) (lines : List (List UInt8)) :
    takenIds (line :: lines) = takenIds [line] ++ takenIds lines := by
  simp only [takenIds, ← List.filterMap_append]
  rfl

theorem deviceId_lines {lines : List (List UInt8)}
    (h : lines.foldlM (parseLine host) st = .ok st') (hid : ∀ id ∈ st.deviceId, id.length ≤ 31) :
    st'.deviceId.toList = st.deviceId.toList ++ takenIds lines ∧
      ∀ id ∈ st'.deviceId, id.length ≤ 31 := by
  induction lines generalizing st with
  | nil =>
    cases h
    exact ⟨(List.append_nil _).symm, hid⟩
  | cons line lines ih =>
    rw [List.foldlM_cons] at h
    obtain ⟨st₁, h₁, h⟩ := bind_ok.1 h
    obtain ⟨hline, hid₁⟩ := line_deviceId h₁ hid
    obtain ⟨hlines, hid'⟩ := ih h hid₁
    refine ⟨?_, hid'⟩
    rw [hlines, hline, takenIds_cons line lines, List.append_assoc]

/-- A slot that is free after the assignments was free before them, and is none of theirs. -/
theorem assign_free {cs : List BConf} {i : Nat} (h : cs.foldl assign confs i = none) :
    confs i = none ∧ ∀ c ∈ cs, c.index ≠ i := by
  induction cs generalizing confs with
  | nil => exact ⟨h, fun c hc => absurd hc List.not_mem_nil⟩
  | cons c cs ih =>
    obtain ⟨hfree, hcs⟩ := ih h
    rw [assign, Function.update_apply] at hfree
    split at hfree
    · cases hfree
    · rename_i hne
      exact ⟨hfree, List.forall_mem_cons.2 ⟨Ne.symm hne, hcs⟩⟩

/-- **The slots hold the configurations of the history**, and no slot was assigned twice. -/
theorem confs_completed {lines : List (List UInt8)}
    (h : lines.foldlM (parseLine host) st = .ok st') (hc : st'.complete = .ok confs) :
    confs = (completed host st lines).foldl assign st.confs ∧
      ((completed host st lines).map (·.index)).Nodup ∧
      ∀ c ∈ completed host st lines, st.confs c.index = none := by
  induction lines generalizing st with
  | nil =>
    cases h
    obtain ⟨hconfs, hfree⟩ := complete_assign hc
    refine ⟨hconfs, ?_, hfree⟩
    rw [completed]
    cases st'.conf <;> simp
  | cons line lines ih =>
    rw [List.foldlM_cons] at h
    obtain ⟨st₁, h₁, h⟩ := bind_ok.1 h
    obtain ⟨hline, hfree, hone⟩ := line_complete h₁
    obtain ⟨hlines, hnodup, hfree₁⟩ := ih h
    have hrun : completed host st (line :: lines) =
        lineCompleted st line ++ completed host st₁ lines := by
      rw [completed, h₁]
    -- a later configuration finds its slot free after this line, so also before it
    have hlater : ∀ c ∈ completed host st₁ lines,
        st.confs c.index = none ∧ ∀ c' ∈ lineCompleted st line, c'.index ≠ c.index :=
      fun c hmem => assign_free (hline ▸ hfree₁ c hmem)
    rw [hrun]
    refine ⟨?_, ?_, fun c hmem => ?_⟩
    · rw [List.foldl_append, ← hline, hlines]
    · rw [List.map_append]
      refine List.nodup_append.2 ⟨hone, hnodup, fun i hi j hj => ?_⟩
      obtain ⟨c', hc', rfl⟩ := List.mem_map.1 hi
      obtain ⟨c, hmem, rfl⟩ := List.mem_map.1 hj
      exact (hlater c hmem).2 c' hc'
    · rcases List.mem_append.1 hmem with hmem | hmem
      · exact hfree c hmem
      · exact (hlater c hmem).1

end

/-! ## The table -/

/-- The number of images of the type. -/
def BConf.imageCount (c : BConf) (type : Char) : Nat :=
  (c.images.map (·.type)).count type.toNat

/-- What is in slot `i`, when it is used. -/
structure SlotWellFormed (data : List (List UInt8)) (i : Nat) (c : BConf) : Prop where
  slot_lt : i < 32
  index : c.index = i
  name : c.name ≠ [] ∧ 0 ∉ c.name
  required : ∀ type ∈ ['L', 'A', 'D'], c.imageCount type = 1
  optional : ∀ type ∈ ['I', '2', 'S'], c.imageCount type ≤ 1
  known : ∀ im ∈ c.images, im.type ∈ ['L', 'A', 'D', 'I', '2', 'S'].map Char.toNat
  /-- `bootfs_conf.images` has eight elements. -/
  room : c.images.length ≤ 8
  sources : ∀ im ∈ c.images, im.data ∈ data

/-- A table that holds what `lines` put into it. -/
structure WellFormed (host : Host) (lines : List (List UInt8)) (t : Table) : Prop where
  confs : ∀ i c, t.confs i = some c → SlotWellFormed t.data i c
  distinct : t.data.Nodup
  deviceId : t.deviceId.toList = takenIds lines
  deviceId_once : (takenIds lines).length ≤ 1
  deviceId_le : ∀ id ∈ takenIds lines, id.length ≤ 31
  assigned : t.confs = (completed host .init lines).foldl assign fun _ => none
  assigned_once : ((completed host .init lines).map (·.index)).Nodup

theorem BConf.Ok.imageCount_le {data : List (List UInt8)} {c : BConf} (h : c.Ok data)
    (type : Char) : c.imageCount type ≤ 1 :=
  List.nodup_iff_count_le_one.1 h.types _

theorem imageCount_pos {c : BConf} {type : Char} (h : c.hasImage type.toNat = true) :
    0 < c.imageCount type := by
  obtain ⟨im, him, hty⟩ := List.any_eq_true.1 h
  rw [BConf.imageCount, List.count_pos_iff, ← beq_iff_eq.1 hty]
  exact List.mem_map_of_mem him

theorem SlotOk.imageCount_eq {data : List (List UInt8)} {i : Nat} {c : BConf} (h : SlotOk data i c)
    {type : Char} (htype : type ∈ ['L', 'A', 'D']) : c.imageCount type = 1 := by
  have hreq : ∃ ty ∈ imageTypes, ty.optional = false ∧ ty.type = type.toNat := by
    simp only [List.mem_cons, List.not_mem_nil, or_false] at htype
    obtain rfl | rfl | rfl := htype
    · exact ⟨⟨ascii "linux", 'L'.toNat, false⟩, by simp [imageTypes], rfl, rfl⟩
    · exact ⟨⟨ascii "atf", 'A'.toNat, false⟩, by simp [imageTypes], rfl, rfl⟩
    · exact ⟨⟨ascii "dtb", 'D'.toNat, false⟩, by simp [imageTypes], rfl, rfl⟩
  obtain ⟨ty, hty, hopt, heq⟩ := hreq
  have hpos : 0 < c.imageCount type := imageCount_pos (heq ▸ h.required ty hty hopt)
  have hle := h.imageCount_le type
  omega

theorem SlotOk.wellFormed {data : List (List UInt8)} {i : Nat} {c : BConf} (h : SlotOk data i c) :
    SlotWellFormed data i c where
  slot_lt := h.slot ▸ h.index
  index := h.slot
  name := ⟨h.name_ne, h.name⟩
  required _ htype := h.imageCount_eq htype
  optional type _ := h.imageCount_le type
  known im him := by
    have hall : ∀ ty ∈ imageTypes, ty.type ∈ ['L', 'A', 'D', 'I', '2', 'S'].map Char.toNat := by
      decide
    obtain ⟨ty, hty, heq⟩ := h.known im him
    rw [← heq]
    exact hall ty hty
  room := h.length_images
  sources := h.sources

/-- **Whatever text is accepted, the table is well formed.** -/
theorem wellFormed_parseConf {host : Host} {t : Table} (h : parseConf host = .ok t) :
    ∃ text, host.bootConf = some text ∧ WellFormed host (fgets (lineSize - 1) text) t := by
  obtain ⟨hok, -⟩ := tableOk_parseConf h
  unfold parseConf at h
  split at h
  · cases h
  · rename_i text htext
    obtain ⟨st, hst, h⟩ := bind_ok.1 h
    obtain ⟨confs, hc, h⟩ := bind_ok.1 h
    cases h
    obtain ⟨hids, hlen⟩ := deviceId_lines hst (fun id hid => nomatch hid)
    obtain ⟨hconfs, honce, -⟩ := confs_completed hst hc
    have hids' : st.deviceId.toList = takenIds (fgets (lineSize - 1) text) := hids
    refine ⟨text, htext, ?_⟩
    exact
      { confs := fun i c hi => (hok.confs i c hi).wellFormed
        distinct := hok.data
        deviceId := hids'
        deviceId_once := by
          rw [← hids']
          cases st.deviceId <;> simp
        deviceId_le := fun id hid => hlen id (Option.mem_toList.1 (hids' ▸ hid))
        assigned := hconfs
        assigned_once := honce }

/-- A text with a device id, two configurations and a line that is skipped. -/
def mixedText : List UInt8 := ascii "device_id=d\n" ++ slotText 3 ++ ascii "a b\n" ++ slotText 1

theorem wellFormed_mixed : ∃ t, parseConf (smallHost mixedText) = .ok t ∧
    ∃ text, (smallHost mixedText).bootConf = some text ∧
      WellFormed (smallHost mixedText) (fgets (lineSize - 1) text) t := by
  obtain ⟨t, ht, -⟩ := ok_of_any (x := parseConf (smallHost mixedText))
    (p := fun t => (t.confs 1).isSome && (t.confs 3).isSome) (by decide +kernel)
  exact ⟨t, ht, wellFormed_parseConf ht⟩

end PBoot
