/-
Slugs and room ids.

The slug of a text is written in one pass: the flag keeps two dashes from standing side
by side, and the trim takes the one in front and the one behind.  So it is tidy, and a
tidy text is its words, which are those of the text.  An id ends in the four digits of
its minute, and one that was tried again in the one or two digits of its number.

* `kebab_eq` — the slug is the runs of letters and digits of the text, in lower case,
  joined by dashes;
* `Reachable.rooms_named` — every room has an id that was tried for its subject at the
  time of its start;
* `room_ids` — the grammar of slugs and ids, and no two ids that were tried for different
  attempts are one.
-/
import ChatBotChat.Cbc.Words
import ChatBotChat.Reach
import ChatBotChat.Rfc3339.Calendar
import ChatBotChat.Rfc3339.Digits

namespace ChatBotChat

open Interleave Words

variable {c : Char} {text : List Char}

/-! ### Characters -/

/-- A letter or digit of ASCII, in lower case. -/
def Lowered (c : Char) : Prop := c.isLower = true ∨ c.isDigit = true

theorem isAlphanum_iff : c.isAlphanum = true ↔
    (c.isUpper = true ∨ c.isLower = true) ∨ c.isDigit = true := by
  show ((c.isUpper || c.isLower) || c.isDigit) = true ↔ _
  rw [Bool.or_eq_true, Bool.or_eq_true]

theorem toNat_lt_of_isAlphanum (h : c.isAlphanum = true) : c.toNat < 128 := by
  have hbound : ∀ last : Char, last.toNat < 128 → c.val ≤ last.val → c.toNat < 128 :=
    fun last hlast hle => lt_of_le_of_lt (UInt32.le_iff_toNat_le.mp hle) hlast
  rcases isAlphanum_iff.mp h with (h | h) | h
  · have hrange : 'A'.val ≤ c.val ∧ c.val ≤ 'Z'.val := of_decide_eq_true h
    exact hbound 'Z' (by decide) hrange.2
  · have hrange : (decide ('a'.val ≤ c.val) && decide (c.val ≤ 'z'.val)) = true := h
    exact hbound 'z' (by decide) (of_decide_eq_true (Bool.and_eq_true_iff.mp hrange).2)
  · have hrange : (decide ('0'.val ≤ c.val) && decide (c.val ≤ '9'.val)) = true := h
    exact hbound '9' (by decide) (of_decide_eq_true (Bool.and_eq_true_iff.mp hrange).2)

theorem ascii_cases {P : Char → Prop} (h : ∀ n < 128, P (Char.ofNat n)) (hc : c.toNat < 128) :
    P c := by
  have hofNat := h c.toNat hc
  rwa [Char.ofNat_toNat] at hofNat

theorem lowered_toLower (h : c.isAlphanum = true) : Lowered c.toLower := by
  have hall : ∀ n < 128, (Char.ofNat n).isAlphanum = true →
      (Char.ofNat n).toLower.isLower = true ∨ (Char.ofNat n).toLower.isDigit = true := by decide
  exact ascii_cases (P := fun c => c.isAlphanum = true → Lowered c.toLower) hall
    (toNat_lt_of_isAlphanum h) h

theorem Lowered.spec (h : Lowered c) : c.isAlphanum = true ∧ c.toLower = c ∧ c ≠ '-' := by
  have halnum : c.isAlphanum = true := isAlphanum_iff.mpr (h.imp_left .inr)
  have hall : ∀ n < 128, (Char.ofNat n).isLower = true ∨ (Char.ofNat n).isDigit = true →
      (Char.ofNat n).toLower = Char.ofNat n ∧ Char.ofNat n ≠ '-' := by decide
  exact ⟨halnum, ascii_cases (P := fun c => Lowered c → c.toLower = c ∧ c ≠ '-') hall
    (toNat_lt_of_isAlphanum halnum) h⟩

/-! ### Slugs -/

/-- Small letters, digits and dashes; no dash in front, behind, or next to another. -/
structure Slug (text : List Char) : Prop where
  chars : ∀ c ∈ text, Lowered c ∨ c = '-'
  first : text.head? ≠ some '-'
  last : text.getLast? ≠ some '-'
  single : ¬ ['-', '-'] <:+: text

/-- The maximal runs of ASCII letters and digits. -/
def runs (text : List Char) : List (List Char) := words (fun c => !c.isAlphanum) text

theorem slug_of_tidy (htidy : Tidy (· = '-') text) (hchars : ∀ c ∈ text, Lowered c ∨ c = '-') :
    Slug text := by
  refine ⟨hchars, fun hfirst => ?_, fun hlast => ?_, fun hdouble => ?_⟩
  · exact of_decide_eq_false (htidy.first '-' hfirst) rfl
  · exact of_decide_eq_false (htidy.last '-' hlast) rfl
  · have hpair := List.IsChain.infix htidy.single hdouble
    rcases (List.isChain_cons_cons.mp hpair).1 with hno | hno
    · exact of_decide_eq_false hno rfl
    · exact of_decide_eq_false hno rfl

/-- The flag is set behind a dash, and then no other one is written. -/
theorem kebabLoop_single (prevDash : Bool) (chars : List Char) :
    Single (· = '-') (kebabLoop prevDash chars) ∧
      (prevDash = true → ∀ c ∈ (kebabLoop prevDash chars).head?, c ≠ '-') := by
  induction chars generalizing prevDash with
  | nil => exact ⟨.nil, fun _ => by simp [kebabLoop]⟩
  | cons ch chars ih =>
    rw [kebabLoop]
    by_cases halnum : ch.isAlphanum = true
    · have hdash : ch.toLower ≠ '-' := (lowered_toLower halnum).spec.2.2
      rw [if_pos halnum]
      refine ⟨List.isChain_cons.mpr ⟨fun c _ => .inl (decide_eq_false hdash), (ih false).1⟩, ?_⟩
      rintro - c hc
      obtain rfl := Option.some_inj.mp hc
      exact hdash
    · rw [if_neg halnum]
      obtain ⟨hsingle, hfirst⟩ := ih true
      cases prevDash with
      | true => exact ⟨hsingle, hfirst⟩
      | false =>
        refine ⟨List.isChain_cons.mpr ⟨fun c hc => .inr ?_, hsingle⟩, nofun⟩
        exact decide_eq_false (hfirst rfl c hc)

theorem lowered_of_mem_kebabLoop {prevDash : Bool} {chars : List Char}
    (h : c ∈ kebabLoop prevDash chars) : Lowered c ∨ c = '-' := by
  induction chars generalizing prevDash with
  | nil => cases h
  | cons ch chars ih =>
    rw [kebabLoop] at h
    by_cases halnum : ch.isAlphanum = true
    · rw [if_pos halnum] at h
      rcases List.mem_cons.mp h with rfl | h
      · exact .inl (lowered_toLower halnum)
      · exact ih h
    · rw [if_neg halnum] at h
      cases prevDash with
      | true => exact ih h
      | false =>
        rcases List.mem_cons.mp h with rfl | h
        · exact .inr rfl
        · exact ih h

/-- The words of what the loop writes: without the flag, also where the first one ends. -/
theorem words_kebabLoop_cases (chars : List Char) :
    ((kebabLoop false chars).takeWhile (fun c => !decide (c = '-')) =
        (chars.takeWhile fun c => !!c.isAlphanum).map Char.toLower ∧
      words (· = '-') ((kebabLoop false chars).dropWhile fun c => !decide (c = '-')) =
        (runs (chars.dropWhile fun c => !!c.isAlphanum)).map (List.map Char.toLower)) ∧
    words (· = '-') (kebabLoop true chars) = (runs chars).map (List.map Char.toLower) := by
  induction chars with
  | nil => exact ⟨⟨rfl, rfl⟩, rfl⟩
  | cons ch chars ih =>
    obtain ⟨⟨hfirst, hrest⟩, hall⟩ := ih
    by_cases halnum : ch.isAlphanum = true
    · have hdash : decide (ch.toLower = '-') = false :=
        decide_eq_false (lowered_toLower halnum).spec.2.2
      have hloop : ∀ flag, kebabLoop flag (ch :: chars) = ch.toLower :: kebabLoop false chars :=
        fun flag => by rw [kebabLoop, if_pos halnum]
      have hsep : (fun c : Char => !c.isAlphanum) ch = false := by simpa using halnum
      have hrun : runs (ch :: chars) = (ch :: chars.takeWhile fun c => !!c.isAlphanum) ::
          runs (chars.dropWhile fun c => !!c.isAlphanum) :=
        @words_cons_of_not_sep _ (fun c : Char => !c.isAlphanum) ch hsep chars
      refine ⟨⟨?_, ?_⟩, ?_⟩
      · rw [hloop, List.takeWhile_cons_of_pos (by simp [hdash]), hfirst,
          List.takeWhile_cons_of_pos (by simp [halnum]), List.map_cons]
      · rw [hloop, List.dropWhile_cons_of_pos (by simp [hdash]), hrest,
          List.dropWhile_cons_of_pos (by simp [halnum])]
      · have hword := @words_cons_of_not_sep _ (fun c => decide (c = '-')) _ hdash
          (kebabLoop false chars)
        rw [hloop, hword, hfirst, hrest, hrun]
        rfl
    · have hsep : (fun c : Char => !c.isAlphanum) ch = true := by simpa using halnum
      have hskip : runs (ch :: chars) = runs chars :=
        @words_cons_of_sep _ (fun c : Char => !c.isAlphanum) ch hsep chars
      have hloop : kebabLoop false (ch :: chars) = '-' :: kebabLoop true chars := by
        rw [kebabLoop, if_neg halnum, if_neg (by simp)]
      refine ⟨⟨?_, ?_⟩, ?_⟩
      · rw [hloop, List.takeWhile_cons_of_neg (by simp),
          List.takeWhile_cons_of_neg (by simpa using halnum)]
        rfl
      · rw [hloop, List.dropWhile_cons_of_neg (by simp),
          List.dropWhile_cons_of_neg (by simpa using halnum), hskip, ← hall]
        exact words_cons_of_sep (by simp) _
      · rw [kebabLoop, if_neg halnum, if_pos rfl, hall, hskip]

/-- The loop keeps the runs, in lower case. -/
theorem words_kebabLoop (chars : List Char) :
    words (· = '-') (kebabLoop false chars) = (runs chars).map (List.map Char.toLower) := by
  cases chars with
  | nil => rfl
  | cons ch chars =>
    by_cases halnum : ch.isAlphanum = true
    · have hall := (words_kebabLoop_cases (ch :: chars)).2
      rwa [kebabLoop, if_pos halnum] at hall ⊢
    · have hskip : words (· = '-') (kebabLoop false (ch :: chars)) =
          words (· = '-') (kebabLoop true chars) := by
        rw [kebabLoop, if_neg halnum, if_neg (by simp)]
        exact words_cons_of_sep (by simp) _
      rw [hskip, (words_kebabLoop_cases chars).2]
      exact congrArg _ (words_cons_of_sep (by simpa using halnum) chars).symm

theorem toList_kebab (input : String) : (kebab input).toList =
    ((kebabLoop false input.toList).dropWhile (· = '-')).rdropWhile (· = '-') :=
  String.toList_ofList

theorem tidy_kebab (input : String) : Tidy (· = '-') (kebab input).toList := by
  rw [toList_kebab]
  exact (kebabLoop_single false input.toList).1.tidy

theorem lowered_of_mem_kebab {input : String} (h : c ∈ (kebab input).toList) :
    Lowered c ∨ c = '-' := by
  rw [toList_kebab] at h
  exact lowered_of_mem_kebabLoop
    ((List.dropWhile_suffix _).subset ((List.rdropWhile_prefix _ _).subset h))

/-- The dashes of a slug part the runs of its text, in lower case. -/
theorem words_kebab (input : String) : words (· = '-') (kebab input).toList =
    (runs input.toList).map (List.map Char.toLower) := by
  rw [toList_kebab, words_rdropWhile, words_dropWhile, words_kebabLoop]

/-- **A slug is the runs of its text**, in lower case, joined by dashes. -/
theorem kebab_eq (input : String) : (kebab input).toList =
    ['-'].intercalate ((runs input.toList).map (List.map Char.toLower)) := by
  rw [← words_kebab]
  exact (tidy_kebab input).intercalate_words.symm

theorem slug_kebab (input : String) : Slug (kebab input).toList :=
  slug_of_tidy (tidy_kebab input) fun _ => lowered_of_mem_kebab

/-- In a slug only the dashes are neither letters nor digits. -/
theorem runs_kebab (input : String) :
    runs (kebab input).toList = (runs input.toList).map (List.map Char.toLower) := by
  rw [← words_kebab]
  refine words_congr fun c hc => ?_
  rcases lowered_of_mem_kebab hc with hlow | rfl
  · simp [hlow.spec.1, hlow.spec.2.2]
  · rfl

theorem map_toLower_of_mem_runs {run : List Char} (h : run ∈ runs text) :
    (run.map Char.toLower).map Char.toLower = run.map Char.toLower := by
  rw [List.map_map]
  refine List.map_congr_left fun c hc => ?_
  have halnum : c.isAlphanum = true := by simpa using (isWord_of_mem h).2 c hc
  exact (lowered_toLower halnum).spec.2.1

/-- **A slug is its own slug.** -/
theorem kebab_kebab (input : String) : kebab (kebab input) = kebab input := by
  apply String.toList_injective
  rw [kebab_eq (kebab input), runs_kebab, kebab_eq input, List.map_map]
  congr 1
  exact List.map_congr_left fun run hrun => map_toLower_of_mem_runs hrun

/-! ### Stamps -/

/-- A number in a field of `w` digits. -/
structure Field (w : ℕ) (n : ℤ) (text : List Char) : Prop where
  width : text.length = w
  digits : ∀ c ∈ text, c.isDigit = true
  value : (Nat.ofDigitChars 10 text 0 : ℤ) = n

/-- `YYYYMMDD-HHMM`: the date and the time of day, to the minute. -/
def IsStamp (now : OffsetDateTime) (text : List Char) : Prop :=
  ∃ year month day hour minute,
    text = year ++ month ++ day ++ '-' :: (hour ++ minute) ∧
    Field 4 now.date.year year ∧ Field 2 now.date.month month ∧ Field 2 now.date.day day ∧
    Field 2 (Rfc3339.secondOfDay now.second / 3600 : ℕ) hour ∧
    Field 2 (Rfc3339.secondOfDay now.second / 60 % 60 : ℕ) minute

theorem field_padDigits {w n : ℕ} (h : n < 10 ^ w) : Field w n (Rfc3339.padDigits w n) where
  width := Rfc3339.padDigits_length w n
  digits _ hc := (Rfc3339.isDigit_of_mem_padDigits hc).isDigit
  value := by rw [Rfc3339.ofDigitChars_padDigits h]

theorem isStamp_stamp {now : OffsetDateTime} (h : now.FourDigitYear) :
    IsStamp now (stamp now).toList := by
  obtain ⟨hmonth, hday, hday'⟩ := Rfc3339.dateOfDay_fields (Rfc3339.dayOfSecond now.second)
  have hyear : Field 4 now.date.year (Rfc3339.padDigits 4 now.date.year.toNat) := by
    have hfield := @field_padDigits 4 now.date.year.toNat (by have := h.2; omega)
    rwa [Int.toNat_of_nonneg h.1] at hfield
  have hdayField : Field 2 now.date.day (Rfc3339.padDigits 2 now.date.day.toNat) := by
    have hfield := @field_padDigits 2 now.date.day.toNat (by
      rw [Rfc3339.Instant.date]
      omega)
    rwa [Int.toNat_of_nonneg (by
      rw [Rfc3339.Instant.date]
      omega)] at hfield
  have hsod : Rfc3339.secondOfDay now.second < 86400 := by
    unfold Rfc3339.secondOfDay
    omega
  exact ⟨_, _, _, _, _, String.toList_ofList, hyear, field_padDigits hmonth, hdayField,
    field_padDigits (by omega), field_padDigits (by omega)⟩

/-! ### Ids -/

/-- The `candidate` of `open_room`. -/
def candidate (base : String) (attempt : ℕ) : String :=
  if attempt = 1 then base else base ++ "-" ++ toString attempt

/-- The `slug` of `room_id`. -/
def slugOf (subject : String) : String := if kebab subject = "" then "room" else kebab subject

theorem slug_slugOf (subject : String) : Slug (slugOf subject).toList ∧ slugOf subject ≠ "" := by
  by_cases hempty : kebab subject = ""
  · rw [slugOf, if_pos hempty]
    refine ⟨?_, by decide⟩
    have hroom : kebab "room" = "room" := by decide
    rw [← hroom]
    exact slug_kebab "room"
  · rw [slugOf, if_neg hempty]
    exact ⟨slug_kebab subject, hempty⟩

theorem toList_roomId (subject : String) (now : OffsetDateTime) : (roomId subject now).toList =
    "cbc-".toList ++ (slugOf subject).toList ++ '-' :: (stamp now).toList := by
  simp [roomId, slugOf]

theorem toList_candidate {base : String} {attempt : ℕ} (h : attempt ≠ 1) :
    (candidate base attempt).toList = base.toList ++ '-' :: Nat.toDigits 10 attempt := by
  simp [candidate, h, Nat.toList_repr]

theorem dash_notMem_of_digits (h : ∀ c ∈ text, c.isDigit = true) : '-' ∉ text := by
  intro hdash
  cases h '-' hdash

theorem dash_notMem_toDigits (n : ℕ) : '-' ∉ Nat.toDigits 10 n :=
  dash_notMem_of_digits fun _ hc => Nat.isDigit_of_mem_toDigits (by decide) (by decide) hc

/-- The last part of an id is the time of day, in four digits. -/
theorem roomId_last (subject : String) (now : OffsetDateTime) : ∃ front last,
    (roomId subject now).toList = front ++ '-' :: last ∧ '-' ∉ last ∧ last.length = 4 := by
  obtain ⟨date, time, hstamp, hdigits, hlen⟩ : ∃ date time,
      (stamp now).toList = date ++ '-' :: time ∧ (∀ c ∈ time, Rfc3339.IsDigit c) ∧
        time.length = 4 := by
    refine ⟨_, _, String.toList_ofList, fun c hc => ?_, by simp⟩
    rcases List.mem_append.mp hc with hc | hc
    · exact Rfc3339.isDigit_of_mem_padDigits hc
    · exact Rfc3339.isDigit_of_mem_padDigits hc
  refine ⟨"cbc-".toList ++ (slugOf subject).toList ++ '-' :: date, time, ?_, ?_, hlen⟩
  · rw [toList_roomId, hstamp, List.append_assoc _ ('-' :: date), List.cons_append]
  · exact dash_notMem_of_digits fun c hc => (hdigits c hc).isDigit

/-- **No id is one that was tried again.** -/
theorem candidate_ne_roomId (base subject : String) (now : OffsetDateTime) {attempt : ℕ}
    (htwo : 2 ≤ attempt) (hmax : attempt ≤ MAX_ATTEMPTS) :
    candidate base attempt ≠ roomId subject now := by
  intro heq
  obtain ⟨front, last, hid, hdash, hlen⟩ := roomId_last subject now
  have htext : base.toList ++ '-' :: Nat.toDigits 10 attempt = front ++ '-' :: last := by
    rw [← toList_candidate (by omega), heq, hid]
  have hlast := (append_cons_inj_last (dash_notMem_toDigits attempt) hdash htext).2
  have hshort : (Nat.toDigits 10 attempt).length ≤ 2 :=
    (Nat.length_toDigits_le_iff (by decide) (by decide)).mpr (by
      rw [MAX_ATTEMPTS] at hmax
      omega)
  rw [hlast, hlen] at hshort
  omega

/-- **Ids that were tried again** come from one id and one number. -/
theorem candidate_injective {base base' : String} {attempt attempt' : ℕ} (h : 2 ≤ attempt)
    (h' : 2 ≤ attempt') (heq : candidate base attempt = candidate base' attempt') :
    base = base' ∧ attempt = attempt' := by
  have htext : base.toList ++ '-' :: Nat.toDigits 10 attempt =
      base'.toList ++ '-' :: Nat.toDigits 10 attempt' := by
    rw [← toList_candidate (by omega), heq, toList_candidate (by omega)]
  obtain ⟨hbase, hdigits⟩ :=
    append_cons_inj_last (dash_notMem_toDigits attempt) (dash_notMem_toDigits attempt') htext
  refine ⟨String.toList_injective hbase, ?_⟩
  have hvalue := congrArg (Nat.ofDigitChars 10 · 0) hdigits
  simpa using hvalue

/-! ### The ids of a daemon -/

variable {app : AppState}

/-- The id is one that is tried for a room of this subject, started then. -/
def Tried (subject : String) (startedAt : OffsetDateTime) (id : String) : Prop :=
  ∃ attempt, 1 ≤ attempt ∧ attempt ≤ MAX_ATTEMPTS ∧
    id = candidate (roomId subject startedAt) attempt

/-- A room that is inserted has an id that is tried for it. -/
def Call.Names : Call → Prop
  | .createRoom room => Tried room.subject room.startedAt room.id
  | _ => True

theorem openRoom_names (r : OpenRoomRequest) :
    (openRoom r).Upholds (fun _ k => k.Names) [] fun _ _ => True := by
  refine .step trivial fun now => ?_
  cases openConfig r with
  | error e => exact trivial
  | ok config =>
    refine Prog.upholds_iterate (fun _ tried => tried < MAX_ATTEMPTS) (by decide)
      fun past tried htried => ?_
    refine .step ⟨tried + 1, Nat.le_add_left 1 tried, htried, rfl⟩ fun outcome => ?_
    cases outcome with
    | inserted => exact trivial
    | uniqueViolation =>
      by_cases hlt : tried + 1 < MAX_ATTEMPTS
      · simp [hlt]
      · simp [hlt]

/-- No other request inserts a room. -/
theorem serve_names (app : AppState) (req : Request) :
    (serve app req).Upholds (fun _ k => k.Names) [] fun _ _ => True := by
  by_cases hopen : ∃ r, req = .openRoom r
  · obtain ⟨r, rfl⟩ := hopen
    exact upholds_answering.mpr (openRoom_names r)
  · refine (serve_upholds app req).imp (fun past k hk => ?_) fun _ _ _ => trivial
    cases k with
    | createRoom room => exact absurd hk.1 hopen
    | _ => trivial

theorem Reachable.names {c : Daemon} (h : Reachable app c) :
    System.Upheld (fun _ _ k => k.Names) (fun _ _ _ => True) c := by
  obtain ⟨utc, instant, hrun⟩ := h
  have hbody : ∀ r, ((daemon app).body r).Upholds (fun _ k => k.Names) [] fun _ _ => True :=
    serve_names app
  exact hrun.upheld hbody

/-- **Every room has an id that was tried for it.** -/
theorem Reachable.rooms_named {c : Daemon} (h : Reachable app c) :
    ∀ row ∈ c.shared.db.rooms, Tried row.subject row.startedAt row.id := by
  refine (h.induction (P := fun _ s => ∀ row ∈ s.db.rooms,
    Tried row.subject row.startedAt row.id) ?_ ?_ ?_).now
  · rintro s₀ ⟨hdb, -⟩
    simp [hdb, Db.empty]
  · intro tr s₁ s₂ hdb _ _ _ hrooms
    rwa [hdb]
  · intro e tr hrec hrooms row hrow
    rcases hrec.effect.mem_rooms.mp hrow with ⟨row₀, hrow₀, rfl⟩ | hopened
    · rw [Call.onRoom_id, Call.onRoom_subject, Call.onRoom_startedAt]
      exact hrooms row₀ hrow₀
    · obtain ⟨-, room, hcall, rfl⟩ := opened_createRoom hopened
      obtain ⟨t, -, hnames⟩ := h.names.event hrec.suffix
      rw [hcall] at hnames
      exact hnames

/-- **The grammar of slugs and room ids.**  The slug of any text is its runs of letters
and digits, in lower case, joined by dashes; it is a slug, and its own.  The id for any
subject and any time of a year of four digits is a slug and the minute behind `cbc`.  Ids
that are tried again are neither an id nor each other, unless the id and the number are
the same, and a daemon tries no others. -/
theorem room_ids :
    (∀ input, (kebab input).toList =
        ['-'].intercalate ((runs input.toList).map (List.map Char.toLower)) ∧
      Slug (kebab input).toList ∧ kebab (kebab input) = kebab input) ∧
    (∀ subject now, Rfc3339.Instant.FourDigitYear now → ∃ time : List Char,
      (roomId subject now).toList = "cbc-".toList ++ (slugOf subject).toList ++ '-' :: time ∧
        slugOf subject ≠ "" ∧ Slug (slugOf subject).toList ∧ IsStamp now time) ∧
    (∀ base attempt, 2 ≤ attempt → attempt ≤ MAX_ATTEMPTS →
      (∀ subject now, candidate base attempt ≠ roomId subject now) ∧
      ∀ base' attempt', 2 ≤ attempt' → (base, attempt) ≠ (base', attempt') →
        candidate base attempt ≠ candidate base' attempt') ∧
    ∀ app c, Reachable app c →
      (∀ e ∈ c.trace, ∀ room, e.call = .createRoom room →
        Tried room.subject room.startedAt room.id) ∧
      ∀ row ∈ c.shared.db.rooms, Tried row.subject row.startedAt row.id := by
  refine ⟨fun input => ⟨kebab_eq input, slug_kebab input, kebab_kebab input⟩,
    fun subject now hyear => ?_, fun base attempt htwo hmax => ⟨?_, ?_⟩, fun app c h => ⟨?_, ?_⟩⟩
  · obtain ⟨hslug, hne⟩ := slug_slugOf subject
    exact ⟨_, toList_roomId subject now, hne, hslug, isStamp_stamp hyear⟩
  · exact fun subject now => candidate_ne_roomId base subject now htwo hmax
  · intro base' attempt' htwo' hne heq
    exact hne (Prod.ext_iff.mpr (candidate_injective htwo htwo' heq))
  · intro e he room hcall
    obtain ⟨older, hrec⟩ := h.recorded_of_mem he
    obtain ⟨t, -, hnames⟩ := h.names.event hrec.suffix
    rw [hcall] at hnames
    exact hnames
  · exact h.rooms_named

end ChatBotChat
