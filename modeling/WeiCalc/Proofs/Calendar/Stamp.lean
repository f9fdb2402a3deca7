import Mathlib
import WeiCalc.Proofs.Calendar.Day
import WeiCalc.Proofs.Calendar.Seconds
import WeiCalc.Proofs.Display
import WeiCalc.Proofs.Text.Words

/-!
# Stamps

A stamp is a date and a time in whole seconds, written in fields of digits with a clock behind them.
It is written by a layout and read as a text in the international format, where the widths of its
fields tell hyphens and colons from the marks of weeks and clocks.  The calendar has a moment for every
timestamp up to the end of its last year, so that a timestamp is found again on all three ways: from
its stamp, from the six numbers in the stamp, and from the moment itself.

* `Layout.writeFrom_number`: a directive that stands for a number.
* `Iso.write_stamp`: the layout of stamps writes them.
* `Iso.moment?_stamp`, `Iso.ofText_stamp`: **a stamp of a valid date and time is read back.**
* `Iso.numbers_stamp`: the numbers in a stamp.
* `Moment.proper_ofSeconds`, `Moment.timestamp_ofSeconds`: the moment of a timestamp.
* `Call.result_unix_stamp`: **timestamps, stamps and fields agree.**
-/

namespace WeiCalc

/-! ### Fields of digits -/

namespace Text

variable {width n : Nat} {ds : List Char}

/-- Digits that fill a field. -/
structure Fills (width : Nat) (ds : List Char) : Prop where
  length : ds.length = width
  digits : ∀ c ∈ ds, c.isDigit = true

theorem Fills.ne_nil (h : Fills (width + 1) ds) : ds ≠ [] := by
  rintro rfl
  exact absurd h.length (Nat.succ_ne_zero width).symm

theorem Fills.padded (hw : 0 < width) (h : n < 10 ^ width) : Fills width (padded 10 width n) :=
  ⟨length_padded (by decide) hw h, fun _ => isDigit_of_mem_padded⟩

/-- A number that fills its field has no zeros in front. -/
theorem padded_of_le (width : Nat) (h : 10 ^ width ≤ n) : padded 10 (width + 1) n = Nat.toDigits 10 n := by
  have hlen : width + 1 ≤ (Nat.toDigits 10 n).length := by
    rcases Nat.eq_zero_or_pos width with rfl | hw
    · exact List.length_pos_iff.mpr Nat.toDigits_ne_nil
    · have hno := mt (Nat.length_toDigits_le_iff (by decide) hw).mp (not_lt.mpr h)
      omega
  rw [padded, Nat.sub_eq_zero_of_le hlen]
  rfl

end Text

theorem Date.fields_le {d : Date} (h : d.isValid = true) :
    d.year ≤ 9999 ∧ d.month ≤ 12 ∧ d.day ≤ 31 := by
  have hgreatest : greatestYear = 9999 := rfl
  have hday := monthLength_le d.year d.month
  simp only [isValid, Bool.and_eq_true, decide_eq_true_eq] at h
  omega

theorem TimeOfDay.fields_lt {t : TimeOfDay} (h : t.isValid = true) :
    t.hour < 24 ∧ t.minute < 60 ∧ t.second < 60 := by
  simp only [isValid, Bool.and_eq_true, decide_eq_true_eq] at h
  omega

/-! ### Writing -/

namespace Layout

variable {m : Moment} {inner : String → List Char} {c : Char} {cs : List Char}

theorem writeFrom_plain (h : c ≠ '%') :
    writeFrom m inner none (c :: cs) = c :: writeFrom m inner none cs := by
  rw [writeFrom, if_neg h]

/-- A directive without flags that stands for a number with zeros in front. -/
theorem writeFrom_number {n width : Nat} (hflag : Directive.start.extend? c = none)
    (hlayout : Directive.layoutOf? c = none)
    (hn : Directive.numberOf? m c = some (n, width, '0')) :
    writeFrom m inner none ('%' :: c :: cs) =
      Text.padded 10 width n ++ writeFrom m inner none cs := by
  have hcase : (if (c == 'b' || c == 'h') && Directive.start.swap then
      { Directive.start with upper := true } else Directive.start) = Directive.start :=
    if_neg (by simp [Directive.start])
  have htext : Directive.start.text? m c = some (Text.padded 10 width n) := by
    rw [Directive.text?, hn]
    rfl
  rw [writeFrom, if_pos rfl, writeFrom, hflag]
  dsimp only
  congr 1
  rw [Directive.finish, hcase, hlayout]
  dsimp only
  rw [htext]
  rfl

end Layout

namespace Iso

/-- A date and a time in whole seconds, with a clock behind them. -/
def stamp (date : Date) (time : TimeOfDay) (clock : List Char) : List Char :=
  Text.padded 10 4 date.year ++ '-' :: (Text.padded 10 2 date.month ++ '-' ::
    (Text.padded 10 2 date.day ++ 'T' :: (Text.padded 10 2 time.hour ++ ':' ::
      (Text.padded 10 2 time.minute ++ ':' :: (Text.padded 10 2 time.second ++ clock)))))

/-- The layout of stamps writes them, in years of four digits. -/
theorem write_stamp {m : Moment} (h : 1000 ≤ m.date.year) :
    Layout.write m "%Y-%m-%dT%H:%M:%SZ" = String.ofList (stamp m.date m.time ['Z']) := by
  have hcs : Layout.withoutClock "%Y-%m-%dT%H:%M:%SZ".toList =
      ['%', 'Y', '-', '%', 'm', '-', '%', 'd', 'T', '%', 'H', ':', '%', 'M', ':', '%', 'S', 'Z'] := by
    decide +kernel
  have hyear : Text.padded 10 1 m.date.year = Text.padded 10 4 m.date.year := by
    rw [Text.padded_of_le 0 (by omega), Text.padded_of_le 3 (by omega)]
  rw [Layout.write, hcs, stamp, ← hyear]
  rw [Layout.writeFrom_number rfl rfl rfl, Layout.writeFrom_plain (by decide),
    Layout.writeFrom_number rfl rfl rfl, Layout.writeFrom_plain (by decide),
    Layout.writeFrom_number rfl rfl rfl, Layout.writeFrom_plain (by decide),
    Layout.writeFrom_number rfl rfl rfl, Layout.writeFrom_plain (by decide),
    Layout.writeFrom_number rfl rfl rfl, Layout.writeFrom_plain (by decide),
    Layout.writeFrom_number rfl rfl rfl, Layout.writeFrom_plain (by decide), Layout.writeFrom]

/-! ### Reading -/

open Text

variable {ys ms ds hs ns rest : List Char} {width count : Nat}

theorem digits?_append (h : Fills count ds) (rest : List Char) :
    digits? count (ds ++ rest) = some (ofDecimal ds, rest) := by
  rw [digits?, List.take_left' h.length, List.drop_left' h.length]
  exact if_pos ⟨h.length, List.all_eq_true.mpr h.digits⟩

/-- A digit is not the letter of weeks. -/
theorem exists_cons_of_fills (h : Fills (width + 1) ds) : ∃ c cs, ds = c :: cs ∧ c ≠ 'W' := by
  obtain ⟨c, cs, rfl⟩ := List.exists_cons_of_ne_nil h.ne_nil
  refine ⟨c, cs, rfl, ?_⟩
  rintro rfl
  exact absurd (h.digits _ List.mem_cons_self) (by decide)

theorem dateWidth?_hyphen (hy : Fills 4 ys) (hm : Fills 2 ms) (hr : rest ≠ []) :
    dateWidth? (ys ++ '-' :: (ms ++ rest)) = some 10 := by
  have hpos := List.length_pos_iff.mpr hr
  have hlen : (ys ++ '-' :: (ms ++ rest)).length = 7 + rest.length := by
    rw [List.length_append, List.length_cons, List.length_append, hy.length, hm.length]
    omega
  obtain ⟨c, cs, rfl, hc⟩ := exists_cons_of_fills hm
  rw [dateWidth?, if_neg (by omega), if_neg (by omega), List.drop_left' hy.length]
  split
  · next h => exact absurd (List.cons.inj (List.cons.inj h).2).1 hc
  · rfl
  · next h => exact absurd (List.cons.inj h).1 (by decide)
  · next _ h _ => exact absurd rfl (h _)

theorem date?_hyphen (hy : Fills 4 ys) (hm : Fills 2 ms) (hd : Fills 2 ds) :
    date? width (ys ++ '-' :: (ms ++ '-' :: (ds ++ rest))) =
      some ⟨ofDecimal ys, ofDecimal ms, ofDecimal ds⟩ := by
  obtain ⟨c, cs, rfl, hc⟩ := exists_cons_of_fills hm
  have hmonth := digits?_append hm ('-' :: (ds ++ rest))
  rw [date?, digits?_append hy]
  simp only [Option.bind_eq_bind, Option.bind_some, List.head?_cons, afterHyphen?, BEq.rfl, if_true]
  split
  · next h => exact absurd (List.cons.inj h).1 hc
  · simp only [hmonth, Option.bind_some, digits?_append hd]
    rfl

/-- A date with hyphens takes up ten characters. -/
theorem drop_hyphen (hy : Fills 4 ys) (hm : Fills 2 ms) (hd : Fills 2 ds) :
    (ys ++ '-' :: (ms ++ '-' :: (ds ++ rest))).drop 10 = rest := by
  have hassoc : ys ++ '-' :: (ms ++ '-' :: (ds ++ rest)) =
      (ys ++ '-' :: (ms ++ '-' :: ds)) ++ rest := by
    simp only [List.append_assoc, List.cons_append]
  rw [hassoc]
  refine List.drop_left' ?_
  simp only [List.length_append, List.length_cons, hy.length, hm.length, hd.length]

/-- Two digits with a colon behind them, in front of numbers that are separated by colons too. -/
theorem numbers?_colon {left micro : Nat} {colons : Option Bool} {ns : List Nat} {complete : Bool}
    (hc : colons.getD true = true) (hd : Fills 2 ds) (hne : rest ≠ [])
    (h : numbers? left (some true) rest = some (ns, micro, complete)) :
    numbers? (left + 1) colons (ds ++ ':' :: rest) =
      some (ofDecimal ds :: ns, micro, complete) := by
  have hsep : colons.getD (':' == ':') = true := hc
  obtain ⟨c, cs, rfl⟩ := List.exists_cons_of_ne_nil hne
  rw [numbers?, digits?_append hd, Option.bind_eq_bind, Option.bind_some]
  simp only [hsep]
  rw [if_pos (by decide), h]
  rfl

theorem numbers?_last {left : Nat} {colons : Option Bool} (hd : Fills 2 ds) :
    numbers? (left + 1) colons ds = some ([ofDecimal ds], 0, true) := by
  have hread := digits?_append hd []
  rw [List.append_nil] at hread
  rw [numbers?, hread]
  rfl

theorem time?_colons (hh : Fills 2 hs) (hn : Fills 2 ns) (hd : Fills 2 ds) :
    time? (hs ++ ':' :: (ns ++ ':' :: ds)) =
      some (⟨ofDecimal hs, ofDecimal ns, ofDecimal ds, 0⟩, true) := by
  have hminute : numbers? 2 (some true) (ns ++ ':' :: ds) =
      some ([ofDecimal ns, ofDecimal ds], 0, true) :=
    numbers?_colon rfl hn hd.ne_nil (numbers?_last hd)
  have hhour : numbers? 3 none (hs ++ ':' :: (ns ++ ':' :: ds)) =
      some ([ofDecimal hs, ofDecimal ns, ofDecimal ds], 0, true) :=
    numbers?_colon rfl hh (List.append_ne_nil_of_left_ne_nil hn.ne_nil _) hminute
  rw [time?, hhour]
  rfl

/-- Neither a digit nor a colon starts an offset. -/
theorem isOffsetMark_eq_false {c : Char} (h : c.isDigit = true ∨ c = ':') :
    isOffsetMark c = false := by
  rw [Bool.eq_false_iff]
  intro hm
  simp only [isOffsetMark, Bool.or_eq_true, beq_iff_eq] at hm
  rcases hm with (rfl | rfl) | rfl <;> exact absurd h (by decide)

theorem timeAndOffset?_utc (hh : Fills 2 hs) (hn : Fills 2 ns) (hd : Fills 2 ds) :
    timeAndOffset? (hs ++ ':' :: (ns ++ ':' :: (ds ++ "+00:00".toList))) =
      some (⟨ofDecimal hs, ofDecimal ns, ofDecimal ds, 0⟩, 0) := by
  have hassoc : hs ++ ':' :: (ns ++ ':' :: (ds ++ "+00:00".toList)) =
      (hs ++ ':' :: (ns ++ ':' :: ds)) ++ "+00:00".toList := by
    simp only [List.append_assoc, List.cons_append]
  have hmark : ∀ c ∈ hs ++ ':' :: (ns ++ ':' :: ds), (!isOffsetMark c) = true := by
    intro c hc
    rw [isOffsetMark_eq_false ?_, Bool.not_false]
    simp only [List.mem_append, List.mem_cons] at hc
    rcases hc with hc | rfl | hc | rfl | hc
    · exact Or.inl (hh.digits c hc)
    · exact Or.inr rfl
    · exact Or.inl (hn.digits c hc)
    · exact Or.inr rfl
    · exact Or.inl (hd.digits c hc)
  have htake : ("+00:00".toList).takeWhile (!isOffsetMark ·) = [] := by decide +kernel
  have hdrop : ("+00:00".toList).dropWhile (!isOffsetMark ·) = '+' :: "00:00".toList := by
    decide +kernel
  have hoffset : offset? '+' "00:00".toList = some 0 := by decide +kernel
  rw [timeAndOffset?, hassoc, List.takeWhile_append_of_pos hmark, List.dropWhile_append_of_pos hmark,
    htake, hdrop, List.append_nil, time?_colons hh hn hd]
  simp only [Option.bind_eq_bind, Option.bind_some, hoffset]
  rfl

section

variable {date : Date} {time : TimeOfDay}

/-- **A stamp of a valid date and time is read back.** -/
theorem moment?_stamp (hdate : date.isValid = true) (htime : time.isValid = true)
    (hmicro : time.micro = 0) :
    moment? (stamp date time "+00:00".toList) = some ⟨date, time, 0⟩ := by
  obtain ⟨hyear, hmonth, hday⟩ := Date.fields_le hdate
  obtain ⟨hhour, hminute, hsecond⟩ := TimeOfDay.fields_lt htime
  have hy : Fills 4 (padded 10 4 date.year) := Fills.padded (by decide) (by omega)
  have hm : Fills 2 (padded 10 2 date.month) := Fills.padded (by decide) (by omega)
  have hds : Fills 2 (padded 10 2 date.day) := Fills.padded (by decide) (by omega)
  have hh : Fills 2 (padded 10 2 time.hour) := Fills.padded (by decide) (by omega)
  have hn : Fills 2 (padded 10 2 time.minute) := Fills.padded (by decide) (by omega)
  have hs : Fills 2 (padded 10 2 time.second) := Fills.padded (by decide) (by omega)
  rw [stamp]
  generalize hclock : padded 10 2 time.hour ++ ':' :: (padded 10 2 time.minute ++ ':' ::
    (padded 10 2 time.second ++ "+00:00".toList)) = clock
  have hread : timeAndOffset? clock = some (time, 0) := by
    rw [← hclock, timeAndOffset?_utc hh hn hs]
    simp only [ofDecimal_padded, ← hmicro]
  rw [moment?, dateWidth?_hyphen hy hm (List.cons_ne_nil _ _)]
  simp only [Option.bind_eq_bind, Option.bind_some, date?_hyphen hy hm hds, ofDecimal_padded,
    drop_hyphen hy hm hds, hread, if_pos (And.intro hdate htime)]
  rfl

/-- The letter behind a stamp stands for a clock without offset. -/
theorem ofText_stamp (hdate : date.isValid = true) (htime : time.isValid = true)
    (hmicro : time.micro = 0) :
    ofText (String.ofList (stamp date time ['Z'])) = .ok ⟨date, time, 0⟩ := by
  have happend : ∀ clock, stamp date time clock = stamp date time [] ++ clock := by
    intro clock
    simp only [stamp, List.append_assoc, List.cons_append, List.append_nil]
  have htight : Tight (stamp date time ['Z']) := by
    obtain ⟨c, cs, hyear⟩ := List.exists_cons_of_ne_nil (padded_ne_nil 10 4 date.year)
    refine ⟨⟨c, _, by rw [stamp, hyear, List.cons_append], ?_⟩, ⟨_, 'Z', happend ['Z'], rfl⟩⟩
    have hmem : c ∈ padded 10 4 date.year := hyear ▸ List.mem_cons_self
    exact isBlank_of_isDigit (isDigit_of_mem_padded hmem)
  have hzulu : withoutZulu (stamp date time ['Z']) = stamp date time "+00:00".toList := by
    rw [withoutZulu, happend ['Z'], List.getLast?_concat]
    dsimp only
    rw [if_pos (Or.inl rfl), List.dropLast_concat, happend "+00:00".toList]
  rw [ofText, String.toList_ofList, htight.trim, hzulu, moment?_stamp hdate htime hmicro]

end

end Iso

/-! ### Numbers of a text -/

namespace Text

/-- The numbers that stand in a text, that is its longest runs of digits. -/
def numbers (cs : List Char) : List Nat :=
  ((cs.splitOnP (!·.isDigit)).filter (!·.isEmpty)).map ofDecimal

variable {ds cs : List Char} {c : Char}

@[simp] theorem numbers_nil : numbers [] = [] := by
  rw [numbers, List.splitOnP_nil]
  rfl

theorem numbers_append (hne : ds ≠ []) (hd : ∀ d ∈ ds, d.isDigit = true)
    (hc : c.isDigit = false) (cs : List Char) :
    numbers (ds ++ c :: cs) = ofDecimal ds :: numbers cs := by
  have hsplit : (ds ++ c :: cs).splitOnP (!·.isDigit) = ds :: cs.splitOnP (!·.isDigit) :=
    List.splitOnP_append_cons_of_forall_mem (fun d h => by rw [hd d h]; rfl) c (by rw [hc]; rfl) cs
  rw [numbers, hsplit, List.filter_cons_of_pos (by simpa using hne), List.map_cons]
  rfl

end Text

@[simp] theorem Iso.numbers_stamp (date : Date) (time : TimeOfDay) :
    Text.numbers (stamp date time ['Z']) =
      [date.year, date.month, date.day, time.hour, time.minute, time.second] := by
  have hpadded : ∀ width n c cs, c.isDigit = false →
      Text.numbers (Text.padded 10 width n ++ c :: cs) = n :: Text.numbers cs := by
    intro width n c cs hc
    rw [Text.numbers_append (Text.padded_ne_nil 10 width n) (fun _ => Text.isDigit_of_mem_padded) hc,
      Text.ofDecimal_padded]
  rw [stamp, hpadded _ _ _ _ rfl, hpadded _ _ _ _ rfl, hpadded _ _ _ _ rfl, hpadded _ _ _ _ rfl,
    hpadded _ _ _ _ rfl, hpadded _ _ _ _ rfl, Text.numbers_nil]

/-! ### Moments in whole seconds -/

namespace Moment

variable {ts : Nat}

@[simp] theorem number_ofSeconds (ts : Nat) :
    (ofSeconds ts).date.number = epochDay + ts / daySeconds :=
  Date.number_ofNumber _

theorem time_ofSeconds (ts : Nat) :
    (ofSeconds ts).time =
      ⟨ts % 86400 / 3600, ts % 86400 / 60 % 60, ts % 86400 % 60, 0⟩ := rfl

/-- Up to the end of the last year, seconds make a moment of the calendar. -/
theorem proper_ofSeconds (h : ts ≤ greatestSeconds) : (ofSeconds ts).Proper := by
  have hcount : Date.count = 3652059 := by decide
  have hepoch : epochDay = 719162 := rfl
  have hgreatest : greatestSeconds = 253402300799 := rfl
  have hday : ts / daySeconds = ts / 86400 := rfl
  refine ⟨Date.isValid_ofNumber (by omega), ?_, Nat.zero_lt_succ _⟩
  rw [time_ofSeconds]
  simp only [TimeOfDay.isValid, Bool.and_eq_true, decide_eq_true_eq]
  omega

/-- Timestamps begin with the year 1970. -/
theorem year_ofSeconds (ts : Nat) : 1970 ≤ (ofSeconds ts).date.year := by
  change 1970 ≤ (Date.ofNumber (epochDay + ts / daySeconds)).year
  generalize ts / daySeconds = days
  have hepoch : epochDay = 719162 := rfl
  have hlt := Date.lt_daysBeforeYear_succ (epochDay + days)
  rw [Date.daysBeforeYear, Nat.add_sub_cancel] at hlt
  omega

@[simp] theorem micros_ofSeconds (ts : Nat) : (ofSeconds ts).micros = 1000000 * ts := by
  have hday : daySeconds = 86400 := rfl
  rw [micros, number_ofSeconds, time_ofSeconds, TimeOfDay.micros, hday, ofSeconds]
  dsimp only
  omega

theorem timestamp_ofSeconds (h : ts ≤ greatestSeconds) : (ofSeconds ts).timestamp = .ok ts := by
  have hq : (ofSeconds ts).exactSeconds = ts := by
    rw [exactSeconds, micros_ofSeconds]
    push_cast
    field_simp
  have hpos : (0 : Rat) ≤ ts := Nat.cast_nonneg ts
  have hmerges : ¬Rounding.Merges ts := by
    refine Rounding.not_merges_natCast (h.trans_lt ?_)
    decide
  have hnominal : (ofSeconds ts).nominal = ts := by
    rw [nominal, hq, if_neg (not_lt.mpr hpos), if_neg hmerges, Int.floor_natCast, add_zero]
  obtain ⟨n, hn, hcast⟩ := timestamp_of_lt (proper_ofSeconds h) (by rw [hq]; linarith)
  rw [hnominal, Int.natCast_inj] at hcast
  rw [hn, hcast]

/-- The fields of a proper moment in whole seconds are not refused. -/
theorem ofFields_of_proper {m : Moment} (h : m.Proper) (hmicro : m.time.micro = 0)
    (hoffset : m.offset = 0) :
    ofFields m.date.year m.date.month m.date.day m.time.hour m.time.minute m.time.second =
      .ok m := by
  obtain ⟨date, time, offset⟩ := m
  obtain ⟨hour, minute, second, micro⟩ := time
  have hdate := h.date
  have htime := h.time
  dsimp only at hdate htime hmicro hoffset ⊢
  simp only [Date.isValid, TimeOfDay.isValid, Bool.and_eq_true, decide_eq_true_eq] at hdate htime
  have hgreatest : Date.greatestYear = 9999 := rfl
  have hpart : greatestPart = 2147483647 := rfl
  have hday := Date.monthLength_le date.year date.month
  have hfind : [date.year, date.month, date.day, hour, minute, second].find?
      (greatestPart < ·) = none := by
    rw [List.find?_eq_none]
    simp only [List.mem_cons, List.not_mem_nil, or_false, decide_eq_true_eq]
    rintro n (rfl | rfl | rfl | rfl | rfl | rfl) <;> omega
  rw [ofFields, refusal?, hfind]
  dsimp only
  rw [if_neg (by omega), if_neg (by omega), if_neg (by omega), if_neg (by omega), if_neg (by omega),
    if_neg (by omega), hmicro, hoffset]

end Moment

/-! ### Calls -/

namespace Call

variable {w : Word} {hexWidth : Option Nat}

/-- The function writes the moment of a timestamp in a layout. -/
theorem result_unix_layout (env : Environment) (fmt : String) (ds : Diagnostics) :
    result env ⟨.unix, [.value (.uint w hexWidth), .value (.text fmt)]⟩ ds =
      (liftM ((liftM (Moment.ofTimestamp w.toNat) >>= fun m => .ok (.text (Layout.write m fmt)) :
        Except Failure Value)) : Eval Value) ds := rfl

/-- Without a layout it takes that of the settings. -/
theorem result_unix_timestamp (env : Environment) (ds : Diagnostics) :
    result env ⟨.unix, [.value (.uint w hexWidth)]⟩ ds =
      result env ⟨.unix, [.value (.uint w hexWidth),
        .value (.text env.settings.dateLayout)]⟩ ds := rfl

theorem result_unix_layout_of_le (env : Environment) (fmt : String) (ds : Diagnostics)
    (h : w.toNat ≤ Moment.greatestSeconds) :
    result env ⟨.unix, [.value (.uint w hexWidth), .value (.text fmt)]⟩ ds =
      .ok (.text (Layout.write (Moment.ofSeconds w.toNat) fmt)) ds := by
  rw [result_unix_layout, Moment.ofTimestamp, if_pos h]
  rfl

theorem result_unix_layout_of_lt (env : Environment) (fmt : String) (ds : Diagnostics)
    (h : Moment.greatestSeconds < w.toNat) :
    result env ⟨.unix, [.value (.uint w hexWidth), .value (.text fmt)]⟩ ds =
      .error (.error ⟨.range (.timestamp w.toNat), none⟩) ds := by
  rw [result_unix_layout, Moment.ofTimestamp, if_neg (not_le.mpr h)]
  rfl

/-- The function answers the timestamp of the moment with the given fields. -/
theorem result_unix_fields (env : Environment) (ds : Diagnostics) {m : Moment} {n : Nat}
    (hm : m.Proper) (hmicro : m.time.micro = 0) (hoffset : m.offset = 0)
    (hn : m.timestamp = .ok n) :
    result env ⟨.unix, [m.date.year, m.date.month, m.date.day, m.time.hour, m.time.minute,
      m.time.second].map fun k => .value (.number (BitVec.ofNat 256 k))⟩ ds =
        .ok (.number (BitVec.ofNat 256 n)) ds := by
  obtain ⟨hyear, hmonth, hday⟩ := Date.fields_le hm.date
  obtain ⟨hhour, hminute, hsecond⟩ := TimeOfDay.fields_lt hm.time
  have hnat : ∀ k, k ≤ 9999 → (BitVec.ofNat 256 k).toNat = k := fun k hk =>
    Word.toNat_ofNat_of_lt (lt_of_le_of_lt hk (by norm_num [Word.capacity]))
  have hcall : ∀ year month day hour minute second : Word,
      result env ⟨.unix, [.value (.number year), .value (.number month), .value (.number day),
        .value (.number hour), .value (.number minute), .value (.number second)]⟩ ds =
          (liftM ((liftM (Moment.ofFields year.toNat month.toNat day.toNat hour.toNat minute.toNat
            second.toNat) >>= fun m => liftM m.timestamp >>= Value.ofNat :
              Except Failure Value)) : Eval Value) ds :=
    fun _ _ _ _ _ _ => rfl
  simp only [List.map_cons, List.map_nil]
  rw [hcall, hnat _ (by omega), hnat _ (by omega), hnat _ (by omega), hnat _ (by omega),
    hnat _ (by omega), hnat _ (by omega), Moment.ofFields_of_proper hm hmicro hoffset]
  change (liftM (liftM m.timestamp >>= Value.ofNat : Except Failure Value) : Eval Value) ds = _
  rw [Moment.value_timestamp hm hn]
  rfl

/-- **Timestamps, stamps and fields agree.**  Up to the end of the year 9999, the stamp of a timestamp
is read back as the timestamp, and so are the six numbers that stand in it.  Every later timestamp is
out of range, in every layout. -/
theorem result_unix_stamp (env : Environment) (w : Word) (hexWidth : Option Nat)
    (ds : Diagnostics) :
    (w.toNat ≤ 253402300799 → ∃ s : String,
      result env ⟨.unix, [.value (.uint w hexWidth), .value (.text "%Y-%m-%dT%H:%M:%SZ")]⟩ ds =
        .ok (.text s) ds ∧
      result env ⟨.unix, [.value (.text s)]⟩ ds = .ok (.number w) ds ∧
      (Text.numbers s.toList).length = 6 ∧
      result env ⟨.unix, (Text.numbers s.toList).map
        fun n => .value (.number (BitVec.ofNat 256 n))⟩ ds = .ok (.number w) ds) ∧
    (253402300799 < w.toNat →
      result env ⟨.unix, [.value (.uint w hexWidth)]⟩ ds =
        .error (.error ⟨.range (.timestamp w.toNat), none⟩) ds ∧
      ∀ fmt, result env ⟨.unix, [.value (.uint w hexWidth), .value (.text fmt)]⟩ ds =
        .error (.error ⟨.range (.timestamp w.toNat), none⟩) ds) := by
  have hw : BitVec.ofNat 256 w.toNat = w := by simp
  constructor
  · intro h
    have hproper := Moment.proper_ofSeconds h
    have hyear : 1000 ≤ (Moment.ofSeconds w.toNat).date.year :=
      le_trans (by decide) (Moment.year_ofSeconds w.toNat)
    have hmicro : (Moment.ofSeconds w.toNat).time.micro = 0 := rfl
    have htimestamp := Moment.timestamp_ofSeconds h
    have htext := Iso.ofText_stamp hproper.date hproper.time hmicro
    have hnumbers := Iso.numbers_stamp (Moment.ofSeconds w.toNat).date (Moment.ofSeconds w.toNat).time
    rw [← String.toList_ofList (l := Iso.stamp _ _ _)] at hnumbers
    refine ⟨String.ofList (Iso.stamp _ _ _), ?_, ?_, congrArg List.length hnumbers, ?_⟩
    · rw [result_unix_layout_of_le env _ ds h, Iso.write_stamp hyear]
    · rw [result_unix_of_timestamp env htext htimestamp, hw]
    · rw [hnumbers, result_unix_fields env ds hproper hmicro rfl htimestamp, hw]
  · intro h
    refine ⟨?_, fun fmt => result_unix_layout_of_lt env fmt ds h⟩
    rw [result_unix_timestamp]
    exact result_unix_layout_of_lt env _ ds h

/-- The leap day of a year that ends a century, and the first second of the year 10000. -/
theorem result_unix_stamp_leap :
    let env : Environment := ⟨.standard 0, fun _ => Vector.replicate 32 0⟩
    (∃ s : String,
      result env ⟨.unix, [.value (.number 951827696), .value (.text "%Y-%m-%dT%H:%M:%SZ")]⟩ #[] =
        .ok (.text s) #[] ∧
      result env ⟨.unix, [.value (.text s)]⟩ #[] = .ok (.number 951827696) #[] ∧
      (Text.numbers s.toList).length = 6 ∧
      result env ⟨.unix, (Text.numbers s.toList).map
        fun n => .value (.number (BitVec.ofNat 256 n))⟩ #[] = .ok (.number 951827696) #[]) ∧
    result env ⟨.unix, [.value (.number 253402300800)]⟩ #[] =
      .error (.error ⟨.range (.timestamp 253402300800), none⟩) #[] := by
  intro env
  constructor
  · exact (result_unix_stamp env 951827696 none #[]).1 (by decide)
  · exact ((result_unix_stamp env 253402300800 none #[]).2 (by decide)).1

end Call

end WeiCalc
