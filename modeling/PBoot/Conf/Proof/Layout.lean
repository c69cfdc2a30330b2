import PBoot.Conf.Layout
import PBoot.Conf.Proof.Table

/-!
# `parse_conf` undoes printing

* `setting_line`: a line says what it was written for.
* `foldlM_written`: so a text is read as its settings.
* `apply_setting`: one setting of a configuration; `read_config`: all of them, in any order.
* `parseConf_layout`: every way of writing configurations is read as these configurations.
-/

namespace PBoot

open Bytes Text Runs

/-! ## One line -/

/-- A key that is no comment and ends at the `=`. -/
structure KeyOk (k : List UInt8) : Prop where
  ne : k ≠ []
  byte : ∀ b ∈ k, isBlank b = false ∧ b ≠ newline ∧ b ≠ 0 ∧ b ≠ 61 ∧ b ≠ 35

/-- A byte of a key. -/
def keyByte (b : UInt8) : Bool := !isBlank b && b != newline && b != 0 && b != 61 && b != 35

theorem KeyOk.of_all {k : List UInt8} (h : k ≠ [] ∧ k.all keyByte = true) : KeyOk k := by
  refine ⟨h.1, fun b hb => ?_⟩
  simpa [keyByte, and_assoc] using List.all_eq_true.1 h.2 b hb

/-- A value as in `Value`. -/
structure ValOk (v : List UInt8) : Prop where
  no_nul : 0 ∉ v
  no_newline : newline ∉ v
  start : ∀ b, v.head? = some b → isBlank b = false
  stop : ∀ b, v.getLast? = some b → isBlank b = false

/-- What a line that is trimmed on both sides sets. -/
def trimmedSetting (name : List UInt8) : Option Setting :=
  if name = [] ∨ name.head? = some 35 then none
  else if 61 ∈ name then
    some ((name.takeWhile (· ≠ 61)).rdropWhile isBlank,
      ((name.dropWhile (· ≠ 61)).drop 1).dropWhile isBlank)
  else none

theorem setting_eq (line : List UInt8) :
    setting line = trimmedSetting ((line.rdropWhile atEnd).dropWhile isBlank) := rfl

section
variable {s : Setting} {l nl k v b₁ b₂ b₃ b₄ tail : List UInt8}

theorem not_mem_blanks {b₀ : List UInt8} {x : UInt8} (h : ∀ b ∈ b₀, isBlank b = true)
    (hx : isBlank x = false) : x ∉ b₀ := fun hm => absurd (h x hm) (by simp [hx])

theorem atEnd_blanks {b₀ : List UInt8} (h : ∀ b ∈ b₀, isBlank b = true) : ∀ b ∈ b₀, atEnd b = true :=
  fun b hb => by simp [atEnd, h b hb]

theorem atEnd_newlines (h : ∀ b ∈ nl, b = newline) : ∀ b ∈ nl, atEnd b = true :=
  fun b hb => by simp [atEnd, h b hb]

/-- What is left of the text behind the `=`. -/
theorem trim_value (hv : ValOk v) (h₃ : ∀ b ∈ b₃, isBlank b = true) (h₄ : ∀ b ∈ b₄, isBlank b = true)
    (hnl : ∀ b ∈ nl, b = newline) :
    ((b₃ ++ v ++ (b₄ ++ nl)).rdropWhile atEnd).dropWhile isBlank = v := by
  rw [rdropWhile_append_of_pos fun b hb => (List.mem_append.1 hb).elim (atEnd_blanks h₄ b)
    (atEnd_newlines hnl b)]
  rcases List.eq_nil_or_concat v with rfl | ⟨init, x, rfl⟩
  · rw [List.append_nil, List.rdropWhile_eq_nil_iff.2 (atEnd_blanks h₃)]
    rfl
  · rw [List.concat_eq_append] at hv ⊢
    have hx : ¬ atEnd x = true := by
      have hn : x ≠ newline := fun he => hv.no_newline (by simp [he])
      simp [atEnd, hv.stop x (by simp), hn]
    rw [← List.append_assoc, List.rdropWhile_concat_neg _ _ _ hx, List.append_assoc,
      List.dropWhile_append_of_pos h₃]
    refine List.dropWhile_eq_self_iff.2 fun hpos => ?_
    simp [hv.start _ (List.head?_eq_getElem? ▸ List.getElem?_eq_getElem hpos)]

/-- The key and the value of a line that is trimmed. -/
theorem setting_of_trim (hk : KeyOk k) (h₁ : ∀ b ∈ b₁, isBlank b = true)
    (h₂ : ∀ b ∈ b₂, isBlank b = true) (hl : l.rdropWhile atEnd = b₁ ++ (k ++ b₂ ++ 61 :: tail)) :
    setting l = some (k, tail.dropWhile isBlank) := by
  obtain ⟨x, k', rfl⟩ := List.exists_cons_of_ne_nil hk.ne
  obtain ⟨hx, -, -, -, hx35⟩ := hk.byte x List.mem_cons_self
  have hname : (l.rdropWhile atEnd).dropWhile isBlank = x :: k' ++ b₂ ++ 61 :: tail := by
    rw [hl, List.dropWhile_append_of_pos h₁]
    exact List.dropWhile_cons_of_neg (by simp [hx])
  have hno61 : ∀ b ∈ x :: k' ++ b₂, decide (b ≠ 61) = true := by
    intro b hb
    rcases List.mem_append.1 hb with hb | hb
    · simp [(hk.byte b hb).2.2.2.1]
    · have : b ≠ 61 := fun he => not_mem_blanks h₂ (by decide) (he ▸ hb)
      simp [this]
  have hkey : (x :: k' ++ b₂).rdropWhile isBlank = x :: k' := by
    rw [rdropWhile_append_of_pos h₂]
    exact List.rdropWhile_eq_self_iff.2 fun hne => by
      simp [(hk.byte _ (List.getLast_mem hne)).1]
  rw [setting_eq, hname, trimmedSetting, if_neg (by simp [hx35]), if_pos (by simp),
    List.takeWhile_append_of_pos hno61, List.dropWhile_append_of_pos hno61,
    List.takeWhile_cons_of_neg (by simp), List.dropWhile_cons_of_neg (by simp), List.append_nil,
    hkey]
  rfl

theorem setting_says (hk : KeyOk s.1) (hv : ValOk s.2) (h : Says s l)
    (hnl : ∀ b ∈ nl, b = newline) : setting (cstr (l ++ nl)) = some s := by
  obtain ⟨b₁, b₂, b₃, b₄, hblank, rfl⟩ := h
  obtain ⟨k, v⟩ := s
  dsimp only at hk hv ⊢
  simp only [List.mem_append, or_imp, forall_and] at hblank
  obtain ⟨⟨⟨h₁, h₂⟩, h₃⟩, h₄⟩ := hblank
  have h0 : isBlank 0 = false := by decide
  have hnul : 0 ∉ b₁ ++ (k ++ b₂ ++ 61 :: (b₃ ++ v ++ b₄)) ++ nl := by
    have hk0 : 0 ∉ k := fun h => (hk.byte 0 h).2.2.1 rfl
    have hnl0 : 0 ∉ nl := fun h => absurd (hnl 0 h) (by decide)
    simp [not_mem_blanks h₁ h0, not_mem_blanks h₂ h0, not_mem_blanks h₃ h0, not_mem_blanks h₄ h0,
      hk0, hnl0, hv.no_nul]
  have hassoc : b₁ ++ (k ++ b₂ ++ 61 :: (b₃ ++ v ++ b₄)) ++ nl =
      b₁ ++ (k ++ b₂) ++ 61 :: (b₃ ++ v ++ (b₄ ++ nl)) := by simp
  have hline : (b₁ ++ (k ++ b₂ ++ 61 :: (b₃ ++ v ++ b₄)) ++ nl).rdropWhile atEnd =
      b₁ ++ (k ++ b₂ ++ 61 :: (b₃ ++ v ++ (b₄ ++ nl)).rdropWhile atEnd) := by
    rw [hassoc, rdropWhile_append_cons (by decide), List.append_assoc]
  rw [cstr_of_not_mem hnul, setting_of_trim hk h₁ h₂ hline, trim_value hv h₃ h₄ hnl]

theorem setting_comment (h : IsComment l) : setting (cstr (l ++ nl)) = none := by
  obtain ⟨b, rest, hb, -, rfl⟩ := h
  have hcstr : cstr (b ++ 35 :: rest ++ nl) = b ++ 35 :: cstr (rest ++ nl) := by
    have hb0 : ∀ x ∈ b, decide (x ≠ 0) = true := fun x hx => by
      have : x ≠ 0 := fun he => not_mem_blanks hb (by decide) (he ▸ hx)
      simp [this]
    rw [List.append_assoc, cstr, List.takeWhile_append_of_pos hb0, List.cons_append,
      List.takeWhile_cons_of_pos (by decide), cstr]
  have hname : ((cstr (b ++ 35 :: rest ++ nl)).rdropWhile atEnd).dropWhile isBlank =
      35 :: (cstr (rest ++ nl)).rdropWhile atEnd := by
    rw [hcstr, rdropWhile_append_cons (by decide), List.dropWhile_append_of_pos hb]
    exact List.dropWhile_cons_of_neg (by decide)
  rw [setting_eq, hname]
  rfl

/-- The key and the value of a setting can be on a line. -/
def SettingOk (s : Setting) : Prop := KeyOk s.1 ∧ ValOk s.2

/-- **A line says what it was written for.** -/
theorem setting_line {s : Option Setting} (h : IsLine s l) (hs : ∀ a ∈ s, SettingOk a)
    (hnl : ∀ b ∈ nl, b = newline) : setting (cstr (l ++ nl)) = s := by
  cases s with
  | none => exact setting_comment h
  | some a => exact setting_says (hs a rfl).1 (hs a rfl).2 h hnl

theorem isLine_ne_nil {s : Option Setting} (h : IsLine s l) : l ≠ [] := by
  cases s with
  | none =>
    obtain ⟨b, rest, -, -, rfl⟩ := h
    simp
  | some a =>
    obtain ⟨b₁, b₂, b₃, b₄, -, rfl⟩ := h
    simp

theorem newline_not_mem {s : Option Setting} (h : IsLine s l) (hs : ∀ a ∈ s, SettingOk a) :
    newline ∉ l := by
  have hblank : isBlank newline = false := by decide
  have h35 : newline ≠ 35 := by decide
  have h61 : newline ≠ 61 := by decide
  cases s with
  | none =>
    obtain ⟨b, rest, hb, hrest, rfl⟩ := h
    simp [not_mem_blanks hb hblank, hrest, h35]
  | some a =>
    obtain ⟨hk, hv⟩ := hs a rfl
    obtain ⟨b₁, b₂, b₃, b₄, hb, rfl⟩ := h
    simp only [List.mem_append, or_imp, forall_and] at hb
    obtain ⟨⟨⟨h₁, h₂⟩, h₃⟩, h₄⟩ := hb
    have hkey : newline ∉ a.1 := fun h => (hk.byte _ h).2.1 rfl
    simp [not_mem_blanks h₁ hblank, not_mem_blanks h₂ hblank, not_mem_blanks h₃ hblank,
      not_mem_blanks h₄ hblank, hkey, hv.no_newline, h61]

end

/-! ## All lines -/

section
variable {host : Host} {st st' : ParseState} {name val : List UInt8}

/-! The number of the line is for the errors. -/

theorem setDeviceId_lineNo (h : setDeviceId st val = .ok st') (n : Nat) :
    setDeviceId { st with lineNo := n } val = .ok { st' with lineNo := n } := by
  unfold setDeviceId at h ⊢
  dsimp only
  split at h
  · cases h
  · rename_i hno
    split at h
    · cases h
    · rename_i hlen
      cases h
      rw [if_neg hno, if_neg hlen]

theorem setNo_lineNo (h : setNo st val = .ok st') (n : Nat) :
    setNo { st with lineNo := n } val = .ok { st' with lineNo := n } := by
  obtain ⟨confs, hc, h0, h32, rfl⟩ := setNo_ok h
  refine bind_ok.2 ⟨confs, hc, ?_⟩
  dsimp only
  rw [if_neg (by omega)]

theorem setImage_lineNo {c : BConf} {ty : ImageType} (h : setImage host st c ty val = .ok st')
    (n : Nat) : setImage host { st with lineNo := n } c ty val = .ok { st' with lineNo := n } := by
  obtain ⟨⟨r, data⟩, hd, h⟩ := bind_ok.1 h
  refine bind_ok.2 ⟨(r, data), hd, ?_⟩
  dsimp only at h ⊢
  split at h
  · cases h
  · rename_i hno
    cases h
    rw [if_neg hno]

theorem applySetting_lineNo (h : applySetting host st name val = .ok st') (n : Nat) :
    applySetting host { st with lineNo := n } name val = .ok { st' with lineNo := n } := by
  unfold applySetting at h ⊢
  by_cases hd : name = ascii "device_id"
  · rw [if_pos hd] at h ⊢
    exact setDeviceId_lineNo h n
  by_cases hno : name = ascii "no"
  · rw [if_neg hd, if_pos hno] at h ⊢
    exact setNo_lineNo h n
  rw [if_neg hd, if_neg hno] at h ⊢
  dsimp only
  cases hc : st.conf with
  | none =>
    rw [hc] at h
    cases h
  | some c =>
    rw [hc] at h
    dsimp only at h ⊢
    split
    · rename_i hf
      rw [hf] at h
      cases h
      rfl
    · rename_i ty hf
      rw [hf] at h
      exact setImage_lineNo h n

/-- The settings, one after the other. -/
def applyAll (host : Host) (st : ParseState) (ss : List Setting) : Except ConfError ParseState :=
  ss.foldlM (fun st s => applySetting host st s.1 s.2) st

theorem parseLine_none {l : List UInt8} (h : setting (cstr l) = none) :
    parseLine host st l = .ok { st with lineNo := st.lineNo + 1 } := by
  unfold parseLine
  rw [h]

theorem parseLine_some {l : List UInt8} {s : Setting} (h : setting (cstr l) = some s)
    (hs : applySetting host st s.1 s.2 = .ok st') (n : Nat) :
    parseLine host { st with lineNo := n } l = .ok { st' with lineNo := n + 1 } := by
  unfold parseLine
  rw [h]
  exact applySetting_lineNo hs (n + 1)

/-- **A text is read as its settings.** -/
theorem foldlM_written {ss : List Setting} {text : List UInt8} (hw : Written ss text)
    (hs : ∀ s ∈ ss, SettingOk s) (h : applyAll host st ss = .ok st') (n : Nat) :
    ∃ m, (lines text).foldlM (parseLine host) { st with lineNo := n } =
      .ok { st' with lineNo := m } := by
  induction hw generalizing st n with
  | nil =>
    cases h
    exact ⟨n, rfl⟩
  | @last s l hl hlen =>
    have hok : ∀ a ∈ s, SettingOk a := fun a ha => hs a (by simpa using ha)
    have hset : setting (cstr (l ++ [])) = s := setting_line hl hok (by simp)
    rw [List.append_nil] at hset
    rw [lines_last (newline_not_mem hl hok) (isLine_ne_nil hl)]
    refine ⟨n + 1, bind_ok.2 ⟨_, ?_, rfl⟩⟩
    cases s with
    | none =>
      cases h
      exact parseLine_none hset
    | some a =>
      obtain ⟨st₁, h₁, h⟩ := bind_ok.1 h
      cases h
      exact parseLine_some hset h₁ n
  | @line s l ss text hl hlen hw ih =>
    have hok : ∀ a ∈ s, SettingOk a := fun a ha => hs a (by simp [Option.mem_def.1 ha])
    have hset : setting (cstr (l ++ [newline])) = s := setting_line hl hok (by simp)
    rw [lines_line (newline_not_mem hl hok)]
    have hrest := fun a ha => hs a (List.mem_append_right s.toList ha)
    cases s with
    | none =>
      obtain ⟨m, hm⟩ := ih hrest h (n + 1)
      exact ⟨m, bind_ok.2 ⟨_, parseLine_none hset, hm⟩⟩
    | some a =>
      obtain ⟨st₁, h₁, h⟩ := bind_ok.1 h
      obtain ⟨m, hm⟩ := ih hrest h (n + 1)
      exact ⟨m, bind_ok.2 ⟨_, parseLine_some hset h₁ n, hm⟩⟩

/-- The lines fit the buffer. -/
theorem length_lines {ss : List Setting} {text : List UInt8} (hw : Written ss text)
    (hs : ∀ s ∈ ss, SettingOk s) : ∀ l ∈ lines text, l.length ≤ lineSize - 1 := by
  induction hw with
  | nil => exact fun _ h => (nomatch h)
  | @last s l hl hlen =>
    have hok : ∀ a ∈ s, SettingOk a := fun a ha => hs a (by simpa using ha)
    rw [lines_last (newline_not_mem hl hok) (isLine_ne_nil hl)]
    intro l' hl'
    rw [List.mem_singleton.1 hl']
    exact hlen.le
  | @line s l ss text hl hlen hw ih =>
    have hok : ∀ a ∈ s, SettingOk a := fun a ha => hs a (by simp [Option.mem_def.1 ha])
    rw [lines_line (newline_not_mem hl hok)]
    refine List.forall_mem_cons.2 ⟨?_, ih fun a ha => hs a (List.mem_append_right _ ha)⟩
    rw [List.length_append]
    exact hlen

end

/-! ## One configuration -/

/-- The image lines among some settings: the types they are for and the sources they name. -/
def ImageSet (host : Host) (pre : List Setting) (ty : ImageType) (r : List UInt8) : Prop :=
  ∃ v, (ty.confVar, v) ∈ pre ∧ host.realpath (sourcePath host v) = some r

/-- The value of a key, or nothing. -/
structure TextSet (pre : List Setting) (k x : List UInt8) : Prop where
  set : ∀ v, (k, v) ∈ pre → x = v
  unset : (∀ v, (k, v) ∉ pre) → x = []

/-- The configuration after some of its settings, and the sources. -/
structure Partial (host : Host) (no : Nat) (data : List (List UInt8)) (pre : List Setting)
    (st : ParseState) (b : BConf) : Prop where
  conf : st.conf = some b
  index : b.index = no
  name : TextSet pre (ascii "name") b.name
  bootargs : TextSet pre (ascii "bootargs") b.bootargs
  images : ∀ im, im ∈ b.images ↔ ∃ ty ∈ imageTypes, im.type = ty.type ∧ ImageSet host pre ty im.data
  types : (b.images.map (·.type)).Nodup
  nodup : st.data.Nodup
  mem : ∀ r, r ∈ st.data ↔ r ∈ data ∨ ∃ ty ∈ imageTypes, ImageSet host pre ty r

/-- A setting that `parse_conf` takes. -/
def Takes (host : Host) (s : Setting) : Prop :=
  (s.1 = ascii "name" ∧ s.2.length ≤ 1023) ∨ (s.1 = ascii "bootargs" ∧ s.2.length ≤ 4095) ∨
    ∃ ty ∈ imageTypes, s.1 = ty.confVar ∧ (sourcePath host s.2).length < host.pathMax ∧
      ∃ r, host.realpath (sourcePath host s.2) = some r ∧ host.canOpen r = true

/-- The keys of the images are other keys, and distinct. -/
theorem confVar_ne : ∀ ty ∈ imageTypes, ty.confVar ≠ ascii "device_id" ∧ ty.confVar ≠ ascii "no" ∧
    ty.confVar ≠ ascii "name" ∧ ty.confVar ≠ ascii "bootargs" := by decide

theorem confVar_of_type : ∀ ty ∈ imageTypes, ∀ ty' ∈ imageTypes, ty.type = ty'.type →
    ty.confVar = ty'.confVar := by decide

theorem find_confVar : ∀ ty ∈ imageTypes, imageTypes.find? (fun t => t.confVar == ty.confVar) =
    some ty := by
  intro ty hty
  simp only [imageTypes, List.mem_cons, List.not_mem_nil, or_false] at hty
  rcases hty with rfl | rfl | rfl | rfl | rfl | rfl <;> rfl

theorem eq_of_confVar {ty ty' : ImageType} (hty : ty ∈ imageTypes) (hty' : ty' ∈ imageTypes)
    (h : ty.confVar = ty'.confVar) : ty = ty' := by
  have hf := find_confVar ty' hty'
  rw [← h, find_confVar ty hty] at hf
  exact Option.some.inj hf

section
variable {host : Host} {no : Nat} {data : List (List UInt8)} {pre : List Setting}
  {st st' : ParseState} {b : BConf} {s : Setting} {k x r : List UInt8} {ty : ImageType}

theorem TextSet.other (h : TextSet pre k x) (hs : s.1 ≠ k) : TextSet (pre ++ [s]) k x := by
  refine ⟨fun v hv => h.set v ?_, fun hno => h.unset fun v hv => hno v (List.mem_append_left _ hv)⟩
  rcases List.mem_append.1 hv with hv | hv
  · exact hv
  · exact absurd (congrArg Prod.fst (List.mem_singleton.1 hv)).symm hs

theorem TextSet.new (hno : ∀ v, (k, v) ∉ pre) (x : List UInt8) : TextSet (pre ++ [(k, x)]) k x := by
  refine ⟨fun v hv => ?_, fun hno => absurd (hno x) (by simp)⟩
  rcases List.mem_append.1 hv with hv | hv
  · exact absurd hv (hno v)
  · exact (congrArg Prod.snd (List.mem_singleton.1 hv)).symm

/-- A setting adds the source of its image. -/
theorem imageSet_snoc : ImageSet host (pre ++ [s]) ty r ↔ ImageSet host pre ty r ∨
    s.1 = ty.confVar ∧ host.realpath (sourcePath host s.2) = some r := by
  unfold ImageSet
  simp only [List.mem_append, List.mem_singleton]
  constructor
  · rintro ⟨v, hv | rfl, hr⟩
    · exact .inl ⟨v, hv, hr⟩
    · exact .inr ⟨rfl, hr⟩
  · rintro (⟨v, hv, hr⟩ | ⟨hk, hr⟩)
    · exact ⟨v, .inl hv, hr⟩
    · exact ⟨s.2, .inr (by rw [← hk]), hr⟩

/-- A setting that is not an image's adds none. -/
theorem imageSet_text (hs : ∀ ty ∈ imageTypes, ty.confVar ≠ s.1) (hty : ty ∈ imageTypes) :
    ImageSet host (pre ++ [s]) ty r ↔ ImageSet host pre ty r := by
  rw [imageSet_snoc]
  exact or_iff_left fun h => hs ty hty h.1.symm

/-- One that is adds the source it names. -/
theorem imageSet_image (hty : ty ∈ imageTypes) (hk : s.1 = ty.confVar)
    (hr : host.realpath (sourcePath host s.2) = some r) {ty' : ImageType} (hty' : ty' ∈ imageTypes)
    {r' : List UInt8} : ImageSet host (pre ++ [s]) ty' r' ↔
      ImageSet host pre ty' r' ∨ ty' = ty ∧ r' = r := by
  rw [imageSet_snoc, hr, Option.some.injEq, hk]
  exact or_congr_right (and_congr ⟨fun he => eq_of_confVar hty' hty he.symm, fun he => by rw [he]⟩
    eq_comm)

/-- The name and the kernel arguments. -/
theorem apply_text (h : Partial host no data pre st b) (hk : s.1 = ascii "name" ∨ s.1 = ascii "bootargs")
    {b' : BConf} (hb : setText b s.1 s.2 = b') (himages : b'.images = b.images)
    (hindex : b'.index = b.index) (hname : TextSet (pre ++ [s]) (ascii "name") b'.name)
    (hargs : TextSet (pre ++ [s]) (ascii "bootargs") b'.bootargs) :
    ∃ st', applySetting host st s.1 s.2 = .ok st' ∧ Partial host no data (pre ++ [s]) st' b' ∧
      st'.confs = st.confs ∧ st'.deviceId = st.deviceId := by
  have hno : ∀ ty ∈ imageTypes, ty.confVar ≠ s.1 := fun ty hty he => by
    rcases hk with hk | hk
    · exact (confVar_ne ty hty).2.2.1 (he.trans hk)
    · exact (confVar_ne ty hty).2.2.2 (he.trans hk)
  have hfind : imageTypes.find? (fun ty => ty.confVar == s.1) = none := by
    rw [List.find?_eq_none]
    exact fun ty hty => by simpa using hno ty hty
  have hd : s.1 ≠ ascii "device_id" ∧ s.1 ≠ ascii "no" := by
    rcases hk with hk | hk <;> rw [hk] <;> decide
  refine ⟨{ st with conf := some b' }, ?_, ?_, rfl, rfl⟩
  · unfold applySetting
    rw [if_neg hd.1, if_neg hd.2, h.conf]
    dsimp only
    rw [hfind, hb]
  · refine ⟨rfl, hindex.trans h.index, hname, hargs, fun im => ?_, himages ▸ h.types, h.nodup,
      fun r => ?_⟩
    · rw [himages, h.images]
      exact exists_congr fun ty => and_congr_right fun hty =>
        and_congr_right fun _ => (imageSet_text hno hty).symm
    · rw [h.mem]
      exact or_congr_right (exists_congr fun ty => and_congr_right fun hty =>
        (imageSet_text hno hty).symm)

/-- A source that can be opened is added, if it is not there. -/
theorem dataAddFile_found {path : List UInt8} (hr : host.realpath path = some r)
    (ho : host.canOpen r = true) (hn : data.Nodup) :
    ∃ data', dataAddFile host path data = .ok (r, data') ∧ data'.Nodup ∧
      ∀ x, x ∈ data' ↔ x ∈ data ∨ x = r := by
  unfold dataAddFile
  rw [hr]
  by_cases hmem : r ∈ data
  · refine ⟨data, if_pos hmem, hn, fun x => ?_⟩
    exact ⟨.inl, fun h => h.elim id fun he => he ▸ hmem⟩
  · refine ⟨data ++ [r], ?_, ?_, fun x => by simp⟩
    · dsimp only
      rw [if_neg hmem, if_pos ho]
    · exact List.nodup_append.2 ⟨hn, List.nodup_singleton r, fun a ha b hb he =>
        hmem (List.mem_singleton.1 hb ▸ he ▸ ha)⟩

theorem imagePath_eq {v : List UInt8} (h : (sourcePath host v).length < host.pathMax) :
    imagePath host v = sourcePath host v := by
  unfold imagePath
  exact snprintf_eq_self_iff.2 (by unfold sourcePath at h; omega)

/-- No image of the type is there before its line. -/
theorem hasImage_new (h : Partial host no data pre st b) (hty : ty ∈ imageTypes)
    (hnew : ∀ v, (ty.confVar, v) ∉ pre) : b.hasImage ty.type = false := by
  refine List.any_eq_false.2 fun im him => ?_
  obtain ⟨ty', hty', htype, v, hv, -⟩ := (h.images im).1 him
  simp only [beq_iff_eq]
  intro he
  rw [confVar_of_type ty' hty' ty hty (htype.symm.trans he)] at hv
  exact hnew v hv

/-- An image. -/
theorem apply_image (h : Partial host no data pre st b) (hty : ty ∈ imageTypes)
    (hk : s.1 = ty.confVar) (hnew : ∀ v, (s.1, v) ∉ pre)
    (hlen : (sourcePath host s.2).length < host.pathMax)
    (hr : host.realpath (sourcePath host s.2) = some r) (ho : host.canOpen r = true) :
    ∃ st' b', applySetting host st s.1 s.2 = .ok st' ∧ Partial host no data (pre ++ [s]) st' b' ∧
      st'.confs = st.confs ∧ st'.deviceId = st.deviceId := by
  obtain ⟨hd, hn, hname, hargs⟩ := confVar_ne ty hty
  obtain ⟨data', hadd, hnodup, hmem⟩ := dataAddFile_found hr ho h.nodup
  have hno : b.hasImage ty.type = false := hasImage_new h hty (hk ▸ hnew)
  have hset : ∀ ty' ∈ imageTypes, ∀ r', ImageSet host (pre ++ [s]) ty' r' ↔
      ImageSet host pre ty' r' ∨ ty' = ty ∧ r' = r := fun ty' hty' r' => imageSet_image hty hk hr hty'
  refine ⟨{ st with data := data', conf := some { b with images := b.images ++ [⟨ty.type, r⟩] } }, _,
    ?_, ⟨rfl, h.index, h.name.other (hk ▸ hname), h.bootargs.other (hk ▸ hargs), fun im => ?_, ?_,
      hnodup, fun x => ?_⟩, rfl, rfl⟩
  · unfold applySetting
    rw [hk, if_neg hd, if_neg hn, h.conf]
    dsimp only
    rw [find_confVar ty hty, show setText b ty.confVar s.2 = b by
      rw [setText, if_neg hname, if_neg hargs]]
    refine bind_ok.2 ⟨(r, data'), ?_, ?_⟩
    · rw [imagePath_eq hlen]
      exact hadd
    · dsimp only
      rw [hno]
      rfl
  · rw [List.mem_append, h.images, List.mem_singleton]
    constructor
    · rintro (⟨ty', hty', htype, hi⟩ | rfl)
      · exact ⟨ty', hty', htype, (hset ty' hty' _).2 (.inl hi)⟩
      · exact ⟨ty, hty, rfl, (hset ty hty _).2 (.inr ⟨rfl, rfl⟩)⟩
    · rintro ⟨ty', hty', htype, hi⟩
      rcases (hset ty' hty' _).1 hi with hi | ⟨rfl, hdata⟩
      · exact .inl ⟨ty', hty', htype, hi⟩
      · exact .inr (by cases im; simp_all)
  · rw [List.map_append]
    refine List.nodup_append.2 ⟨h.types, List.nodup_singleton _, fun a ha c hc he => ?_⟩
    obtain ⟨im, him, rfl⟩ := List.mem_map.1 ha
    refine List.any_eq_false.1 hno im him (beq_iff_eq.2 (he.trans ?_))
    simpa using hc
  · rw [hmem, h.mem]
    constructor
    · rintro ((hx | ⟨ty', hty', hi⟩) | rfl)
      · exact .inl hx
      · exact .inr ⟨ty', hty', (hset ty' hty' x).2 (.inl hi)⟩
      · exact .inr ⟨ty, hty, (hset ty hty x).2 (.inr ⟨rfl, rfl⟩)⟩
    · rintro (hx | ⟨ty', hty', hi⟩)
      · exact .inl (.inl hx)
      · rcases (hset ty' hty' x).1 hi with hi | ⟨-, rfl⟩
        · exact .inl (.inr ⟨ty', hty', hi⟩)
        · exact .inr rfl

/-- **One setting** of a configuration, with a key that was not there. -/
theorem apply_setting (h : Partial host no data pre st b) (hs : Takes host s)
    (hnew : ∀ v, (s.1, v) ∉ pre) :
    ∃ st' b', applySetting host st s.1 s.2 = .ok st' ∧ Partial host no data (pre ++ [s]) st' b' ∧
      st'.confs = st.confs ∧ st'.deviceId = st.deviceId := by
  obtain ⟨k, v⟩ := s
  dsimp only [Takes] at hs hnew ⊢
  rcases hs with ⟨rfl, hlen⟩ | ⟨rfl, hlen⟩ | ⟨ty, hty, hk, hlen, r, hr, ho⟩
  · have hb : setText b (ascii "name") v = { b with name := v } := by
      rw [setText, if_pos rfl, snprintf_eq_self_iff.2 hlen]
    have hne : ascii "name" ≠ ascii "bootargs" := by decide
    obtain ⟨st', hst⟩ := apply_text (s := (ascii "name", v)) h (.inl rfl) hb rfl rfl (.new hnew v)
      (h.bootargs.other hne)
    exact ⟨st', _, hst⟩
  · have hne : ascii "bootargs" ≠ ascii "name" := by decide
    have hb : setText b (ascii "bootargs") v = { b with bootargs := v } := by
      rw [setText, if_neg hne, if_pos rfl, snprintf_eq_self_iff.2 hlen]
    obtain ⟨st', hst⟩ := apply_text (s := (ascii "bootargs", v)) h (.inr rfl) hb rfl rfl
      (h.name.other hne) (.new hnew v)
    exact ⟨st', _, hst⟩
  · exact apply_image (s := (k, v)) h hty hk hnew hlen hr ho

end

/-! ## A whole configuration -/

section
variable {host : Host} {data : List (List UInt8)} {c : Config} {rest : List Setting}
  {st st' : ParseState} {b : BConf} {ty : ImageType}

theorem mem_imageSettings {s : Setting} : s ∈ c.imageSettings ↔
    ∃ ty ∈ imageTypes, ∃ w, c.image ty = some w ∧ s = (ty.confVar, w.bytes) := by
  simp [Config.imageSettings, List.mem_filterMap, eq_comm]

theorem mem_settings {s : Setting} : s ∈ c.settings ↔ s = (ascii "name", c.name.bytes) ∨
    (∃ w, c.bootargs = some w ∧ s = (ascii "bootargs", w.bytes)) ∨ s ∈ c.imageSettings := by
  simp [Config.settings, eq_comm]

/-- The keys of the images that are given. -/
theorem keys_imageSettings (c : Config) (tys : List ImageType) :
    (tys.filterMap fun ty => (c.image ty).map fun v => (ty.confVar, v.bytes)).map Prod.fst =
      (tys.filter fun ty => (c.image ty).isSome).map ImageType.confVar := by
  induction tys with
  | nil => rfl
  | cons ty tys ih => cases h : c.image ty <;> simp [h, ih]

/-- Every key is given once. -/
theorem nodup_keys (c : Config) : (c.settings.map Prod.fst).Nodup := by
  have hall : (ascii "name" :: ascii "bootargs" :: imageTypes.map ImageType.confVar).Nodup := by decide
  refine List.Nodup.sublist ?_ hall
  have himages : (c.imageSettings.map Prod.fst).Sublist (imageTypes.map ImageType.confVar) := by
    rw [Config.imageSettings, keys_imageSettings]
    exact List.filter_sublist.map _
  unfold Config.settings
  cases c.bootargs with
  | none => simpa using himages.cons _
  | some w => simpa using himages

theorem settingOk_settings {s : Setting} (h : s ∈ c.settings) : SettingOk s := by
  have hval : ∀ w : Value, ValOk w.bytes := fun w =>
    ⟨w.no_nul, w.no_newline, w.trimmed_start, w.trimmed_end⟩
  have hkeys : ∀ k ∈ ascii "name" :: ascii "bootargs" :: imageTypes.map ImageType.confVar,
      k ≠ [] ∧ k.all keyByte = true := by decide
  have hkey : ∀ k ∈ ascii "name" :: ascii "bootargs" :: imageTypes.map ImageType.confVar, KeyOk k :=
    fun k hk => .of_all (hkeys k hk)
  rcases mem_settings.1 h with rfl | ⟨w, -, rfl⟩ | hi
  · exact ⟨hkey _ (by simp), hval _⟩
  · exact ⟨hkey _ (by simp), hval _⟩
  · obtain ⟨ty, hty, w, -, rfl⟩ := mem_imageSettings.1 hi
    exact ⟨hkey _ (by simp [List.mem_map_of_mem hty]), hval _⟩

theorem takes_settings (hf : c.Found host) {s : Setting} (h : s ∈ c.settings)
    (hlen : s.2.length < 4095) : Takes host s := by
  rcases mem_settings.1 h with rfl | ⟨w, -, rfl⟩ | hi
  · exact .inl ⟨rfl, c.name_le⟩
  · exact .inr (.inl ⟨rfl, hlen.le⟩)
  · obtain ⟨ty, hty, w, hw, rfl⟩ := mem_imageSettings.1 hi
    obtain ⟨hpath, hr⟩ := hf ty hty w hw
    exact .inr (.inr ⟨ty, hty, rfl, hpath, hr⟩)

/-- The settings of an image. -/
theorem imageSet_iff (hp : rest.Perm c.settings) (hty : ty ∈ imageTypes) (r : List UInt8) :
    ImageSet host rest ty r ↔ c.Source host ty r := by
  obtain ⟨-, -, hname, hargs⟩ := confVar_ne ty hty
  have hmem : ∀ v, (ty.confVar, v) ∈ rest ↔ ∃ w, c.image ty = some w ∧ v = w.bytes := by
    intro v
    rw [hp.mem_iff, mem_settings, mem_imageSettings]
    constructor
    · rintro (he | ⟨w, -, he⟩ | ⟨ty', hty', w, hw, he⟩)
      · exact absurd (congrArg Prod.fst he) hname
      · exact absurd (congrArg Prod.fst he) hargs
      · obtain ⟨hk, rfl⟩ := Prod.mk.inj he
        obtain rfl := eq_of_confVar hty hty' hk
        exact ⟨w, hw, rfl⟩
    · rintro ⟨w, hw, rfl⟩
      exact .inr (.inr ⟨ty, hty, w, hw, rfl⟩)
  unfold ImageSet Config.Source
  simp only [hmem]
  constructor
  · rintro ⟨v, ⟨w, hw, rfl⟩, hr⟩
    exact ⟨w, hw, hr⟩
  · rintro ⟨w, hw, hr⟩
    exact ⟨w.bytes, ⟨w, hw, rfl⟩, hr⟩

/-- All its settings, in any order, make the configuration. -/
theorem isRead_of_partial (h : Partial host c.no data rest st b) (hp : rest.Perm c.settings) :
    c.IsRead host b := by
  refine ⟨h.index, h.name.set _ (hp.mem_iff.2 (mem_settings.2 (.inl rfl))), ?_, fun im => ?_, h.types⟩
  · cases hargs : c.bootargs with
    | none =>
      refine h.bootargs.unset fun v hv => ?_
      rcases mem_settings.1 (hp.mem_iff.1 hv) with he | ⟨w, hw, -⟩ | hi
      · exact absurd (congrArg Prod.fst he) (show ascii "bootargs" ≠ ascii "name" by decide)
      · rw [hargs] at hw
        cases hw
      · obtain ⟨ty, hty, w, -, he⟩ := mem_imageSettings.1 hi
        exact (confVar_ne ty hty).2.2.2 (congrArg Prod.fst he).symm
    | some w =>
      exact h.bootargs.set _ (hp.mem_iff.2 (mem_settings.2 (.inr (.inl ⟨w, hargs, rfl⟩))))
  · rw [h.images]
    exact exists_congr fun ty => and_congr_right fun hty => and_congr_right fun _ =>
      imageSet_iff hp hty im.data

/-- **All settings of a configuration**, in any order. -/
theorem read_settings (h : Partial host c.no data [] st b) (hp : rest.Perm c.settings)
    (hf : c.Found host) (hlen : ∀ s ∈ rest, s.2.length < 4095) :
    ∃ st', applyAll host st rest = .ok st' ∧ ∃ b', Partial host c.no data rest st' b' ∧
      st'.confs = st.confs ∧ st'.deviceId = st.deviceId := by
  refine foldlM_goes (I := fun pre st' => ∃ b', Partial host c.no data pre st' b' ∧
    st'.confs = st.confs ∧ st'.deviceId = st.deviceId) ?_ ⟨b, h, rfl, rfl⟩
  rintro pre s post st₁ hrest ⟨b₁, hb₁, hconfs, hdev⟩
  have hmem : s ∈ rest := by simp [hrest]
  have hnew : ∀ v, (s.1, v) ∉ pre := by
    have hkeys : (rest.map Prod.fst).Nodup := (hp.map _).nodup_iff.2 (nodup_keys c)
    rw [hrest, List.map_append, List.map_cons] at hkeys
    intro v hv
    have hpre : s.1 ∈ pre.map Prod.fst := List.mem_map.2 ⟨_, hv, rfl⟩
    exact (List.nodup_append.1 hkeys).2.2 s.1 hpre s.1 (by simp) rfl
  obtain ⟨st₂, b₂, h₂, hb₂, hc₂, hd₂⟩ := apply_setting hb₁
    (takes_settings hf (hp.mem_iff.1 hmem) (hlen s hmem)) hnew
  exact ⟨st₂, h₂, b₂, hb₂, hc₂.trans hconfs, hd₂.trans hdev⟩

/-- A configuration that is read is complete. -/
theorem completeConf_read {confs : Nat → Option BConf} (hb : c.IsRead host b) (hf : c.Found host)
    (hfree : confs c.no = none) :
    completeConf confs b = .ok (Function.update confs c.no (some b)) := by
  have hfind : imageTypes.find? (fun ty => !ty.optional && !b.hasImage ty.type) = none := by
    refine List.find?_eq_none.2 fun ty hty => ?_
    cases hopt : ty.optional with
    | true => simp
    | false =>
      obtain ⟨w, hw⟩ := Option.isSome_iff_exists.1 (c.required ty hty hopt)
      obtain ⟨-, r, hr, -⟩ := hf ty hty w hw
      have him : (⟨ty.type, r⟩ : BConfImage) ∈ b.images :=
        (hb.images _).2 ⟨ty, hty, rfl, w, hw, hr⟩
      have himg : b.hasImage ty.type = true := List.any_eq_true.2 ⟨_, him, beq_self_eq_true _⟩
      simp [himg]
  unfold completeConf
  rw [hb.index, hfree, hb.name, hfind]
  simp [c.name_ne]

end

/-! ## All configurations -/

/-- The table holds the configurations that were written so far, once the last one is complete. -/
structure Ready (host : Host) (done : List Config) (st : ParseState) : Prop where
  slots : ∃ confs, st.complete = .ok confs ∧ SlotsRead host done confs
  sources : SourcesRead host done st.data
  deviceId : st.deviceId = none

section
variable {host : Host} {c : Config} {done cs : List Config} {ss : List Setting}
  {sss : List (List Setting)} {st : ParseState} {v : List UInt8}

theorem Numeral.valOk {n : Nat} (h : Numeral n v) : ValOk v := by
  have hdigit : ∀ b, isDigit b = true → b ≠ 0 ∧ b ≠ newline ∧ isBlank b = false := by
    intro b hb
    refine ⟨fun he => ?_, fun he => ?_, ?_⟩
    · exact absurd (he ▸ hb) (by decide)
    · exact absurd (he ▸ hb) (by decide)
    · refine Bool.eq_false_iff.2 fun hblank => ?_
      have hcases : b = 32 ∨ b = 9 := by simpa [isBlank] using hblank
      rcases hcases with rfl | rfl <;> exact absurd hb (by decide)
  refine ⟨fun h0 => ?_, fun hn => ?_, fun b hb => ?_, fun b hb => ?_⟩
  · exact (hdigit 0 (h.digit 0 h0)).1 rfl
  · exact (hdigit newline (h.digit newline hn)).2.1 rfl
  · exact (hdigit b (h.digit b (List.mem_of_mem_head? hb))).2.2
  · exact (hdigit b (h.digit b (List.mem_of_getLast? hb))).2.2

theorem Config.Ordered.settingOk (h : c.Ordered ss) : ∀ s ∈ ss, SettingOk s := by
  obtain ⟨v, rest, hv, hp, rfl⟩ := h
  have hkey : KeyOk (ascii "no") := .of_all (by decide)
  exact List.forall_mem_cons.2
    ⟨⟨hkey, hv.valOk⟩, fun s hs => settingOk_settings (hp.mem_iff.1 hs)⟩

theorem settingOk_flatten (h : List.Forall₂ Config.Ordered cs sss) :
    ∀ s ∈ sss.flatten, SettingOk s := by
  induction h with
  | nil => exact fun _ hs => (nomatch hs)
  | cons hc _ ih => exact fun s hs => (List.mem_append.1 hs).elim (hc.settingOk s) (ih s)

/-- The `no` line: the configuration before it is complete, and the next one is empty. -/
theorem apply_no {confs : Nat → Option BConf} (hv : Numeral c.no v) (h : st.complete = .ok confs) :
    applySetting host st (ascii "no") v =
      .ok { st with confs, conf := some ⟨c.no, [], [], []⟩ } := by
  have hlt := c.no_lt
  have hno : atoi v = c.no := by
    rw [atoi_digits hv.digit (by rw [hv.value]; omega), hv.value]
  unfold applySetting
  rw [if_neg (by decide), if_pos rfl]
  refine bind_ok.2 ⟨confs, h, ?_⟩
  dsimp only
  rw [hno, if_neg (by omega), Int.toNat_natCast]

/-- **A configuration is read**, after others with other numbers. -/
theorem read_config (h : Ready host done st) (hc : c.Ordered ss) (hno : c.no ∉ done.map Config.no)
    (hf : c.Found host) (hlen : ∀ s ∈ ss, s.2.length < 4095) :
    ∃ st', applyAll host st ss = .ok st' ∧ Ready host (done ++ [c]) st' := by
  obtain ⟨v, rest, hv, hp, rfl⟩ := hc
  obtain ⟨⟨confs, hcomplete, hslots⟩, hsources, hdev⟩ := h
  have h0 : Partial host c.no st.data [] { st with confs, conf := some ⟨c.no, [], [], []⟩ }
      ⟨c.no, [], [], []⟩ := by
    refine ⟨rfl, rfl, ⟨by simp, by simp⟩, ⟨by simp, by simp⟩, by simp [ImageSet], by simp,
      hsources.nodup, by simp [ImageSet]⟩
  obtain ⟨st', hst', b, hb, hconfs, hdev'⟩ := read_settings h0 hp hf
    fun s hs => hlen s (List.mem_cons_of_mem _ hs)
  have hread := isRead_of_partial hb hp
  have hfree : confs c.no = none := hslots.unused _ hno
  have hcomplete' : st'.complete = .ok (Function.update confs c.no (some b)) := by
    unfold ParseState.complete
    rw [hb.conf, hconfs]
    exact completeConf_read hread hf hfree
  refine ⟨st', bind_ok.2 ⟨_, apply_no hv hcomplete, hst'⟩, ⟨_, hcomplete', ⟨?_, ?_⟩⟩,
    ⟨hb.nodup, ?_⟩, hdev'.trans hdev⟩
  · intro d hd
    rcases List.mem_append.1 hd with hd | hd
    · have hne : d.no ≠ c.no := fun he => hno (he ▸ List.mem_map_of_mem hd)
      rw [Function.update_of_ne hne]
      exact hslots.read d hd
    · rw [List.mem_singleton.1 hd, Function.update_self]
      exact ⟨b, rfl, hread⟩
  · intro i hi
    simp only [List.map_append, List.map_cons, List.map_nil, List.mem_append, List.mem_singleton,
      not_or] at hi
    rw [Function.update_of_ne hi.2]
    exact hslots.unused i hi.1
  · intro r
    rw [hb.mem, hsources.mem]
    simp only [List.mem_append, List.mem_singleton, or_and_right, exists_or, exists_eq_left]
    exact or_congr_right (exists_congr fun ty => and_congr_right fun hty => imageSet_iff hp hty r)

theorem read_configs (h : List.Forall₂ Config.Ordered cs sss) (hr : Ready host done st)
    (hd : ((done ++ cs).map Config.no).Nodup) (hf : ∀ c ∈ cs, c.Found host)
    (hlen : ∀ s ∈ sss.flatten, s.2.length < 4095) :
    ∃ st', applyAll host st sss.flatten = .ok st' ∧ Ready host (done ++ cs) st' := by
  induction h generalizing done st with
  | nil => exact ⟨st, rfl, by rwa [List.append_nil]⟩
  | @cons c ss cs sss hc _ ih =>
    rw [List.flatten_cons] at hlen ⊢
    have hno : c.no ∉ done.map Config.no := by
      rw [List.map_append, List.map_cons] at hd
      exact fun hmem => (List.nodup_append.1 hd).2.2 _ hmem _ List.mem_cons_self rfl
    obtain ⟨st₁, h₁, hr₁⟩ := read_config hr hc hno (hf c List.mem_cons_self)
      fun s hs => hlen s (List.mem_append_left _ hs)
    obtain ⟨st₂, h₂, hr₂⟩ := ih hr₁ (by simpa using hd) (fun c hc => hf c (List.mem_cons_of_mem _ hc))
      fun s hs => hlen s (List.mem_append_right _ hs)
    refine ⟨st₂, ?_, by simpa using hr₂⟩
    unfold applyAll
    rw [List.foldlM_append]
    exact bind_ok.2 ⟨st₁, h₁, h₂⟩

/-- A value is no longer than its line. -/
theorem Written.length_lt {text : List UInt8} (h : Written ss text) :
    ∀ s ∈ ss, s.2.length < 4095 := by
  have hline : ∀ {s : Option Setting} {l : List UInt8}, IsLine s l → l.length < 4095 →
      ∀ a ∈ s.toList, a.2.length < 4095 := by
    intro s l hl hlen a ha
    obtain rfl : s = some a := by simpa using ha
    obtain ⟨b₁, b₂, b₃, b₄, -, rfl⟩ := hl
    simp only [List.length_append, List.length_cons] at hlen
    omega
  induction h with
  | nil => exact fun _ hs => (nomatch hs)
  | last hl hlen => exact hline hl hlen
  | line hl hlen _ ih => exact fun s hs => (List.mem_append.1 hs).elim (hline hl hlen s) (ih s)

theorem ready_init : Ready host [] .init := by
  refine ⟨⟨fun _ => none, rfl, by simp, fun _ _ => rfl⟩, ⟨List.nodup_nil, ?_⟩, rfl⟩
  simp [ParseState.init]

/-- **`parse_conf` undoes printing**: every way of writing configurations with distinct numbers is
read as these configurations. -/
theorem parseConf_layout {text : List UInt8} (ht : host.bootConf = some text) (hl : Layout cs text)
    (hd : (cs.map Config.no).Nodup) (hf : ∀ c ∈ cs, c.Found host) :
    ∃ t, parseConf host = .ok t ∧ TableRead host cs t := by
  obtain ⟨sss, hsss, hw⟩ := hl
  have hok := settingOk_flatten hsss
  obtain ⟨st, hst, ⟨confs, hcomplete, hslots⟩, hsources, hdev⟩ :=
    read_configs hsss ready_init hd hf hw.length_lt
  obtain ⟨m, hm⟩ := foldlM_written hw hok hst 0
  refine ⟨{ deviceId := st.deviceId, data := st.data, confs, files := [] }, ?_, hslots, hsources,
    hdev, rfl⟩
  unfold parseConf
  rw [ht]
  dsimp only
  rw [fgets_eq_lines (length_lines hw hok)]
  exact bind_ok.2 ⟨_, hm, bind_ok.2 ⟨confs, hcomplete, rfl⟩⟩

end

/-! ## A text with one configuration -/

/-- A text that can be a value. -/
def isValue (bytes : List UInt8) : Bool :=
  !bytes.contains 0 && !bytes.contains newline && bytes.head?.all (fun b => !isBlank b) &&
    bytes.getLast?.all (fun b => !isBlank b)

theorem ValOk.of_isValue {v : List UInt8} (h : isValue v = true) : ValOk v := by
  simp only [isValue, Bool.and_eq_true, Bool.not_eq_true', List.contains_eq_mem,
    decide_eq_false_iff_not, Option.all_eq_true] at h
  exact ⟨h.1.1.1, h.1.1.2, h.1.2, h.2⟩

def Value.ofString (s : String) (h : isValue (ascii s) = true) : Value :=
  ⟨ascii s, (ValOk.of_isValue h).no_nul, (ValOk.of_isValue h).no_newline,
    (ValOk.of_isValue h).start, (ValOk.of_isValue h).stop⟩

def printed : Config where
  no := 3
  name := .ofString "a = b #1" rfl
  bootargs := some (.ofString "root=/dev/sda" rfl)
  image ty :=
    if ty.confVar = ascii "splash" then some (.ofString "/i" rfl)
    else if ty.optional then none
    else some (.ofString "i" rfl)
  no_lt := by decide
  name_ne := by decide
  name_le := by decide
  required := by decide

/-- Its lines, but for newlines, with the settings they say. -/
def printedLines : List (Option Setting × List UInt8) :=
  [(none, ascii "# one"), (some (ascii "no", ascii "3"), ascii "no\t= 3 "),
    (some (ascii "linux", ascii "i"), ascii "  linux=i"),
    (some (ascii "splash", ascii "/i"), ascii "splash =/i"),
    (some (ascii "name", ascii "a = b #1"), ascii "name = a = b #1"), (none, ascii "\t#"),
    (some (ascii "dtb", ascii "i"), ascii "dtb=i\t"),
    (some (ascii "bootargs", ascii "root=/dev/sda"), ascii "bootargs=root=/dev/sda"),
    (some (ascii "atf", ascii "i"), ascii "atf=i")]

def printedText : List UInt8 := (ascii "\n").intercalate (printedLines.map Prod.snd)

def printedHost : Host where
  pathMax := 4096
  confDir := ascii "c"
  bootConf := some printedText
  files := none
  realpath := some
  canOpen _ := true
  contents _ := none

theorem layout_printed : Layout [printed] printedText := by
  have hno : Numeral printed.no (ascii "3") := ⟨by decide, List.all_eq_true.1 rfl, rfl⟩
  refine ⟨[printedLines.filterMap Prod.fst], .cons ⟨_, _, hno, ?_, rfl⟩ .nil, ?_⟩
  · decide
  · refine .line (s := none) ⟨[], ascii " one", List.all_eq_true.1 rfl, by decide, rfl⟩ (by decide) ?_
    refine .line (s := some _) ⟨[], [9], [32], [32], List.all_eq_true.1 rfl, rfl⟩ (by decide) ?_
    refine .line (s := some _) ⟨[32, 32], [], [], [], List.all_eq_true.1 rfl, rfl⟩ (by decide) ?_
    refine .line (s := some _) ⟨[], [32], [], [], List.all_eq_true.1 rfl, rfl⟩ (by decide) ?_
    refine .line (s := some _) ⟨[], [32], [32], [], List.all_eq_true.1 rfl, rfl⟩ (by decide) ?_
    refine .line (s := none) ⟨[9], [], List.all_eq_true.1 rfl, by decide, rfl⟩ (by decide) ?_
    refine .line (s := some _) ⟨[], [], [], [9], List.all_eq_true.1 rfl, rfl⟩ (by decide) ?_
    refine .line (s := some _) ⟨[], [], [], [], List.all_eq_true.1 rfl, rfl⟩ (by decide) ?_
    exact .last (s := some _) ⟨[], [], [], [], List.all_eq_true.1 rfl, rfl⟩ (by decide)

theorem found_printed : printed.Found printedHost := by
  have hlen : ∀ ty ∈ imageTypes, ∀ v ∈ printed.image ty,
      (sourcePath printedHost v.bytes).length < 4096 := by decide
  exact fun ty hty v hv => ⟨hlen ty hty v hv, _, rfl, rfl⟩

/-- It is read as this configuration. -/
theorem parseConf_printed : printedHost.bootConf = some printedText ∧ Layout [printed] printedText ∧
    ∃ t, parseConf printedHost = .ok t ∧ TableRead printedHost [printed] t := by
  refine ⟨rfl, layout_printed, parseConf_layout rfl layout_printed (by decide) fun c hc => ?_⟩
  rw [List.mem_singleton.1 hc]
  exact found_printed

end PBoot
