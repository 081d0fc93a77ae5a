import Pccs.Splitting
import Mathlib.Data.List.Nodup

/-!
# The text format of a scrape

A scrape is a list of families; each has a help line, a type line, and a line for
each of its samples. The reader takes such a text apart again and refuses a
family or a sample that comes twice, a sample outside its family, a bad name, a
bad escape and a value that is no number. `parse_write` says that it finds what
was written. How numbers are read is a parameter.
-/
namespace Pccs.Exposition

open Paths

abbrev Label := String × String

section Writer

def escape : Char → List Char
  | '\\' => ['\\', '\\']
  | '"' => ['\\', '"']
  | '\n' => ['\\', 'n']
  | c => [c]

def writeLabel (label : Label) : List Char :=
  label.1.toList ++ '=' :: '"' :: (label.2.toList.flatMap escape ++ ['"'])

def renderLabels (labels : List Label) (extra : Option Label) : List Char :=
  if labels = [] ∧ extra = none then []
  else '{' :: ([','].intercalate ((labels ++ extra.toList).map writeLabel) ++ ['}'])

/-- One line for one value. -/
def sample (name : String) (labels : List Label) (value : List Char) : List Char :=
  name.toList ++ (renderLabels labels none ++ ' ' :: (value ++ ['\n']))

/-- The head of a family. -/
def family (name ty help : String) : List Char :=
  "# HELP ".toList ++ (name.toList ++ ' ' :: (help.toList ++ '\n' ::
    ("# TYPE ".toList ++ (name.toList ++ ' ' :: (ty.toList ++ ['\n'])))))

end Writer

section Reader

variable {V : Type}

structure Sample (V : Type) where
  name : String
  labels : List Label
  value : V

/-- What is read so far. -/
structure Reading (V : Type) where
  families : List String
  currentFamily : Option String
  samples : List (Sample V)

def nameChar (c : Char) : Bool := c.isAlphanum || c == '_' || c == ':'

def nameStart (c : Char) : Bool := c.isAlpha || c == '_' || c == ':'

def labelChar (c : Char) : Bool := c.isAlphanum || c == '_'

def unescape : Char → Option Char
  | 'n' => some '\n'
  | '\\' => some '\\'
  | '"' => some '"'
  | _ => none

/-- A label's value, after the quote that opens it. -/
def readValue : List Char → Option (List Char × List Char)
  | [] => none
  | '"' :: rest => some ([], rest)
  | '\\' :: c :: rest => do
    let c ← unescape c
    let (value, rest) ← readValue rest
    return (c :: value, rest)
  | '\n' :: _ => none
  | c :: rest => do
    let (value, rest) ← readValue rest
    return (c :: value, rest)

/-- The labels after the brace that opens them. Each takes a character at least, so the
length of the text is enough fuel. -/
def readLabels : Nat → List Label → List Char → Option (List Label × List Char)
  | 0, _, _ => none
  | fuel + 1, labels, text =>
    let key := text.takeWhile labelChar
    if key = [] then none
    else match text.dropWhile labelChar with
      | '=' :: '"' :: rest => do
        let (value, rest) ← readValue rest
        let label := (String.ofList key, String.ofList value)
        if label.1 ∈ labels.map Prod.fst then none
        else match rest with
          | '}' :: rest => some (labels ++ [label], rest)
          | ',' :: rest => readLabels fuel (labels ++ [label]) rest
          | _ => none
      | _ => none

/-- The labels of a line, if it has any. -/
def readLabelSet : List Char → Option (List Label × List Char)
  | '{' :: rest => readLabels rest.length [] rest
  | rest => some ([], rest)

def suffixes : List String := ["_bucket", "_sum", "_count"]

def readSample (number : List Char → Option V) (currentFamily : Option String) (line : List Char) :
    Option (Sample V) := do
  let name := line.takeWhile nameChar
  let rest := line.dropWhile nameChar
  if (name.head?.any nameStart) = false then none
  else if (currentFamily.all fun family =>
      name = family.toList || suffixes.any fun suffix => name = family.toList ++ suffix.toList) = false
    then none
  else
    let (labels, rest) ← readLabelSet rest
    match rest with
    | ' ' :: value => (number value).map fun v => ⟨String.ofList name, labels, v⟩
    | _ => none

def readLine (number : List Char → Option V) (r : Reading V) (line : List Char) :
    Option (Reading V) :=
  match stripPrefix "# TYPE ".toList line with
  | some definition => do
    let (name, ty) ← splitOnce ' ' definition
    let name := String.ofList name
    if String.ofList ty ∉ ["counter", "gauge", "histogram"] then none
    else if name ∈ r.families then none
    else some { r with families := r.families ++ [name], currentFamily := some name }
  | none =>
    if line.head? = some '#' then some r
    else do
      let sample ← readSample number r.currentFamily line
      if (sample.name, sample.labels) ∈ r.samples.map fun s => (s.name, s.labels) then none
      else some { r with samples := r.samples ++ [sample] }

/-- `str::lines`, without the empty ones. -/
def lines (text : List Char) : List (List Char) :=
  ((split '\n' text).map fun line =>
    if line.getLast? = some '\r' then line.dropLast else line).filter (· ≠ [])

def parseFrom (number : List Char → Option V) (r : Reading V) (text : List Char) :
    Option (Reading V) := (lines text).foldlM (readLine number) r

def parseSamples (number : List Char → Option V) (text : List Char) : Option (List (Sample V)) :=
  (parseFrom number ⟨[], none, []⟩ text).map Reading.samples

end Reader

section RoundTrip

variable {V : Type} {number : List Char → Option V} {rest : List Char}

theorem readValue_escape (value rest : List Char) :
    readValue (value.flatMap escape ++ '"' :: rest) = some (value, rest) := by
  induction value with
  | nil => rfl
  | cons c value ih =>
    rw [List.flatMap_cons, List.append_assoc]
    by_cases hslash : c = '\\'
    · subst hslash
      simp [escape, readValue, unescape, ih]
    by_cases hquote : c = '"'
    · subst hquote
      simp [escape, readValue, unescape, ih]
    by_cases hline : c = '\n'
    · subst hline
      simp [escape, readValue, unescape, ih]
    simp [escape, readValue, hslash, ih]

/-- A key that the reader takes whole. -/
def IsKey (key : String) : Prop := key ≠ "" ∧ key.toList.all labelChar = true

theorem takeWhile_append_cons {p : Char → Bool} {word : List Char} {c : Char}
    (hword : word.all p = true) (hc : p c = false) :
    (word ++ c :: rest).takeWhile p = word ∧ (word ++ c :: rest).dropWhile p = c :: rest := by
  have hword' : ∀ x ∈ word, p x = true := List.all_eq_true.mp hword
  rw [List.takeWhile_append_of_pos hword', List.dropWhile_append_of_pos hword']
  simp [hc]

/-- One label, and what follows it. -/
theorem readLabels_step {fuel : Nat} {prior : List Label} {label : Label}
    (hkey : IsKey label.1) (hnew : label.1 ∉ prior.map Prod.fst) :
    readLabels (fuel + 1) prior (writeLabel label ++ rest) =
      match rest with
      | '}' :: rest => some (prior ++ [label], rest)
      | ',' :: rest => readLabels fuel (prior ++ [label]) rest
      | _ => none := by
  obtain ⟨key, value⟩ := label
  have htext : writeLabel (key, value) ++ rest =
      key.toList ++ '=' :: ('"' :: (value.toList.flatMap escape ++ '"' :: rest)) := by
    simp [writeLabel]
  obtain ⟨htake, hdrop⟩ := @takeWhile_append_cons
    ('"' :: (value.toList.flatMap escape ++ '"' :: rest)) _ key.toList '=' hkey.2 (by decide)
  have hne : key.toList ≠ [] := by
    intro hnil
    exact hkey.1 (String.toList_eq_nil_iff.mp hnil)
  rw [htext, readLabels, htake, hdrop]
  simp only [hne, if_false, readValue_escape, String.ofList_toList]
  simp [hnew]

/-- By induction on the labels, with those before them. -/
theorem readLabels_write {labels prior : List Label} {fuel : Nat} (hne : labels ≠ [])
    (hfuel : labels.length ≤ fuel) (hkeys : ∀ label ∈ labels, IsKey label.1)
    (hnodup : ((prior ++ labels).map Prod.fst).Nodup) :
    readLabels fuel prior ([','].intercalate (labels.map writeLabel) ++ '}' :: rest) =
      some (prior ++ labels, rest) := by
  induction labels generalizing prior fuel with
  | nil => exact absurd rfl hne
  | cons label labels ih =>
    obtain ⟨fuel, rfl⟩ : ∃ n, fuel = n + 1 := ⟨fuel - 1, by simp at hfuel; omega⟩
    obtain ⟨hkey, hkeys⟩ := List.forall_mem_cons.mp hkeys
    have hnew : label.1 ∉ prior.map Prod.fst := by
      simp only [List.map_append, List.map_cons, List.nodup_append] at hnodup
      intro hmem
      exact hnodup.2.2 _ hmem _ List.mem_cons_self rfl
    cases labels with
    | nil =>
      rw [List.map_singleton, List.intercalate_singleton, readLabels_step hkey hnew]
      rfl
    | cons second labels =>
      rw [List.map_cons, List.map_cons, List.intercalate_cons_cons, List.append_assoc,
        List.append_assoc, readLabels_step hkey hnew]
      have hless : (second :: labels).length ≤ fuel := by simpa using hfuel
      have hnodup' : ((prior ++ [label] ++ second :: labels).map Prod.fst).Nodup := by
        simpa using hnodup
      have hrest := ih (by simp) hless hkeys hnodup'
      rw [List.append_assoc, List.singleton_append] at hrest
      simpa using hrest

/-- A line of a family: what its name ends in, its labels and its value. -/
structure Series where
  suffix : String
  labels : List Label
  value : List Char

structure Family where
  name : String
  ty : String
  help : String
  series : List Series

def Series.write (name : String) (s : Series) : List Char :=
  sample (name ++ s.suffix) s.labels s.value

def Family.write (f : Family) : List Char :=
  family f.name f.ty f.help ++ f.series.flatMap (Series.write f.name)

/-- What identifies a sample. -/
def Family.keys (f : Family) : List (String × List Label) :=
  f.series.map fun s => (f.name ++ s.suffix, s.labels)

/-- The sample of a line, if its value is a number. -/
def Series.samples (number : List Char → Option V) (name : String) (s : Series) : List (Sample V) :=
  ((number s.value).map fun v => ⟨name ++ s.suffix, s.labels, v⟩).toList

def Family.samples (number : List Char → Option V) (f : Family) : List (Sample V) :=
  f.series.flatMap (Series.samples number f.name)

/-- Text within a line. -/
def Inline (text : List Char) : Prop := '\n' ∉ text ∧ '\r' ∉ text

structure Series.WellFormed (number : List Char → Option V) (s : Series) : Prop where
  suffix : s.suffix ∈ "" :: suffixes
  keys : ∀ label ∈ s.labels, IsKey label.1
  nodup : (s.labels.map Prod.fst).Nodup
  inline : Inline s.value
  number : (number s.value).isSome = true

structure Family.WellFormed (number : List Char → Option V) (f : Family) : Prop where
  start : f.name.toList.head?.any nameStart = true
  name : f.name.toList.all nameChar = true
  ty : f.ty ∈ ["counter", "gauge", "histogram"]
  help : Inline f.help.toList
  series : ∀ s ∈ f.series, s.WellFormed number

theorem inline_append {a b : List Char} : Inline (a ++ b) ↔ Inline a ∧ Inline b := by
  simp only [Inline, List.mem_append, not_or]
  tauto

theorem inline_of_all {p : Char → Bool} {text : List Char} (h : text.all p = true)
    (hline : p '\n' = false) (hreturn : p '\r' = false) : Inline text := by
  rw [List.all_eq_true] at h
  constructor
  · intro hmem
    rw [h _ hmem] at hline
    cases hline
  · intro hmem
    rw [h _ hmem] at hreturn
    cases hreturn

/-- Text that `lines` returns as it is. -/
structure Line (text : List Char) : Prop where
  nonempty : text ≠ []
  single : '\n' ∉ text
  plain : text.getLast? ≠ some '\r'

theorem Inline.line {text : List Char} (h : Inline text) (hne : text ≠ []) : Line text where
  nonempty := hne
  single := h.1
  plain hlast := h.2 (List.mem_of_getLast? hlast)

theorem lines_cons {line : List Char} (h : Line line) :
    lines (line ++ '\n' :: rest) = line :: lines rest := by
  simp only [lines, split_append_cons h.single, List.map_cons, if_neg h.plain]
  rw [List.filter_cons_of_pos (by simpa using h.nonempty)]

theorem parseFrom_line {r : Reading V} {line : List Char} (h : Line line) :
    parseFrom number r (line ++ '\n' :: rest) =
      (readLine number r line).bind fun r => parseFrom number r rest := by
  rw [parseFrom, lines_cons h]
  rfl

theorem parseFrom_nil (r : Reading V) : parseFrom number r [] = some r := by
  have hlines : lines [] = [] := by decide
  rw [parseFrom, hlines]
  rfl

variable {f : Family} {s : Series}

theorem suffix_nameChar {suffix : String} (h : suffix ∈ "" :: suffixes) :
    suffix.toList.all nameChar = true := by
  have htable : ∀ suffix ∈ "" :: suffixes, suffix.toList.all nameChar = true := by decide
  exact htable suffix h

theorem name_all (hf : f.WellFormed number) (hs : s.WellFormed number) :
    (f.name ++ s.suffix).toList.all nameChar = true := by
  rw [String.toList_append, List.all_append, hf.name, suffix_nameChar hs.suffix]
  rfl

theorem name_ne_nil (hf : f.WellFormed number) : f.name.toList ≠ [] := by
  intro hnil
  have hstart := hf.start
  rw [hnil] at hstart
  cases hstart

theorem length_le_intercalate (labels : List Label) :
    labels.length ≤ ([','].intercalate (labels.map writeLabel)).length := by
  have hpos : ∀ label : Label, 0 < (writeLabel label).length := by
    intro label
    simp only [writeLabel, List.length_append, List.length_cons]
    omega
  induction labels with
  | nil => simp
  | cons label labels ih =>
    have := hpos label
    cases labels with
    | nil =>
      rw [List.map_singleton, List.intercalate_singleton, List.length_singleton]
      omega
    | cons second labels =>
      simp only [List.map_cons, List.intercalate_cons_cons, List.length_append,
        List.length_cons, List.length_nil] at ih ⊢
      omega

/-- The labels of a line, after its name. -/
theorem readLabelSet_render (hs : s.WellFormed number) :
    readLabelSet (renderLabels s.labels none ++ ' ' :: s.value) = some (s.labels, ' ' :: s.value) := by
  by_cases hne : s.labels = []
  · simp [renderLabels, hne, readLabelSet]
  · have hfuel : s.labels.length ≤
        ([','].intercalate (s.labels.map writeLabel) ++ '}' :: ' ' :: s.value).length := by
      have := length_le_intercalate s.labels
      rw [List.length_append]
      omega
    have hread := @readLabels_write (' ' :: s.value) s.labels [] _ hne hfuel hs.keys hs.nodup
    simpa [renderLabels, hne, readLabelSet] using hread

theorem readSample_write (hf : f.WellFormed number) (hs : s.WellFormed number) :
    readSample number (some f.name)
        ((f.name ++ s.suffix).toList ++ (renderLabels s.labels none ++ ' ' :: s.value)) =
      (number s.value).map fun v => ⟨f.name ++ s.suffix, s.labels, v⟩ := by
  have hstop : ∃ c tail, renderLabels s.labels none ++ ' ' :: s.value = c :: tail ∧
      nameChar c = false := by
    by_cases hne : s.labels = []
    · exact ⟨' ', s.value, by simp [renderLabels, hne], by decide⟩
    · exact ⟨'{', _, by simp [renderLabels, hne]; rfl, by decide⟩
  obtain ⟨c, tail, htail, hc⟩ := hstop
  have hlabels := readLabelSet_render hs
  rw [htail] at hlabels ⊢
  obtain ⟨htake, hdrop⟩ := @takeWhile_append_cons tail _ _ _ (name_all hf hs) hc
  have hstart : (f.name ++ s.suffix).toList.head?.any nameStart = true := by
    obtain ⟨c, rest, hname⟩ := List.exists_cons_of_ne_nil (name_ne_nil hf)
    have hc := hf.start
    rw [hname] at hc
    rw [String.toList_append, hname]
    exact hc
  have hfamily : ((f.name ++ s.suffix).toList = f.name.toList || suffixes.any fun suffix =>
      (f.name ++ s.suffix).toList = f.name.toList ++ suffix.toList) = true := by
    rw [String.toList_append]
    rcases List.mem_cons.mp hs.suffix with hsuffix | hsuffix
    · simp [hsuffix]
    · simp only [Bool.or_eq_true, List.any_eq_true, decide_eq_true_eq]
      exact .inr ⟨s.suffix, hsuffix, rfl⟩
  rw [readSample, htake, hdrop]
  simp only [hstart, Option.all_some, hfamily, Bool.true_eq_false, if_false, hlabels,
    Option.bind_eq_bind, Option.bind_some, String.ofList_toList]

theorem stripPrefix_append (start s : List Char) : stripPrefix start (start ++ s) = some s := by
  simp [stripPrefix]

theorem readLine_type {r : Reading V} (hf : f.WellFormed number) (hnew : f.name ∉ r.families) :
    readLine number r ("# TYPE ".toList ++ (f.name.toList ++ ' ' :: f.ty.toList)) =
      some { r with families := r.families ++ [f.name], currentFamily := some f.name } := by
  have hspace : ' ' ∉ f.name.toList := by
    intro hmem
    exact absurd (List.all_eq_true.mp hf.name _ hmem) (by decide)
  rw [readLine, stripPrefix_append]
  simp only [splitOnce_append hspace, Option.bind_eq_bind, Option.bind_some, String.ofList_toList,
    hf.ty, hnew, not_true_eq_false, if_false]

theorem readLine_help (r : Reading V) (text : List Char) :
    readLine number r ("# HELP ".toList ++ text) = some r := by
  have hstrip : stripPrefix "# TYPE ".toList ("# HELP ".toList ++ text) = none := by
    simp [stripPrefix]
  rw [readLine, hstrip]
  simp

/-- The line of a sample is read as the sample. -/
theorem readLine_sample {r : Reading V} (hf : f.WellFormed number) (hs : s.WellFormed number)
    (hcurrent : r.currentFamily = some f.name) {v : V} (hv : number s.value = some v)
    (hnew : (f.name ++ s.suffix, s.labels) ∉ r.samples.map fun s => (s.name, s.labels)) :
    readLine number r
        ((f.name ++ s.suffix).toList ++ (renderLabels s.labels none ++ ' ' :: s.value)) =
      some { r with samples := r.samples ++ [⟨f.name ++ s.suffix, s.labels, v⟩] } := by
  have hread := readSample_write hf hs
  obtain ⟨c, rest, hname⟩ := List.exists_cons_of_ne_nil (name_ne_nil hf)
  have hc : c ≠ '#' := by
    rintro rfl
    have hstart := hf.start
    rw [hname] at hstart
    exact absurd hstart (by decide : nameStart '#' ≠ true)
  have hstrip : stripPrefix "# TYPE ".toList
      ((f.name ++ s.suffix).toList ++ (renderLabels s.labels none ++ ' ' :: s.value)) = none := by
    rw [String.toList_append, hname]
    simp [stripPrefix, Ne.symm hc]
  rw [readLine, hstrip]
  simp only
  rw [if_neg (by rw [String.toList_append, hname]; simp [hc]), hcurrent, hread, hv]
  simp only [Option.map_some, Option.bind_eq_bind, Option.bind_some, hnew, if_false]

def Reading.keys (r : Reading V) : List (String × List Label) :=
  r.samples.map fun s => (s.name, s.labels)

theorem newline_not_mem_escape (c : Char) : '\n' ∉ escape c := by
  unfold escape
  split
  · decide
  · decide
  · decide
  · rename_i hline
    simpa using fun h : '\n' = c => hline h.symm

theorem newline_not_mem_render {labels : List Label} (h : ∀ label ∈ labels, IsKey label.1) :
    '\n' ∉ renderLabels labels none := by
  have hlabel : ∀ label ∈ labels, '\n' ∉ writeLabel label := by
    intro label hmem
    have hkey : Inline label.1.toList := inline_of_all (h label hmem).2 (by decide) (by decide)
    simp only [writeLabel, List.mem_append, List.mem_cons, List.mem_flatMap, not_or, not_exists,
      not_and]
    exact ⟨hkey.1, by decide, by decide, fun c _ => newline_not_mem_escape c, by decide⟩
  unfold renderLabels
  split
  · exact List.not_mem_nil
  · simp only [Option.toList_none, List.append_nil, List.mem_cons, List.mem_append, not_or]
    refine ⟨by decide, fun hmem => ?_, by decide⟩
    rcases mem_intercalate hmem with heq | ⟨part, hpart, hmem⟩
    · exact absurd heq (by decide)
    · obtain ⟨label, hlabel', rfl⟩ := List.mem_map.mp hpart
      exact hlabel label hlabel' hmem

theorem series_line (hf : f.WellFormed number) (hs : s.WellFormed number) :
    Line ((f.name ++ s.suffix).toList ++ (renderLabels s.labels none ++ ' ' :: s.value)) where
  nonempty := by
    rw [String.toList_append, List.append_assoc]
    exact List.append_ne_nil_of_left_ne_nil (name_ne_nil hf) _
  single := by
    have hname : Inline (f.name ++ s.suffix).toList :=
      inline_of_all (name_all hf hs) (by decide) (by decide)
    have hlabels := newline_not_mem_render hs.keys
    have hvalue := hs.inline.1
    simp only [List.mem_append, List.mem_cons, not_or]
    exact ⟨hname.1, hlabels, by decide, hvalue⟩
  plain := by
    have hspace : Inline [' '] := ⟨by decide, by decide⟩
    have hlast : Inline (' ' :: s.value) := inline_append.mpr ⟨hspace, hs.inline⟩
    rw [← List.append_assoc, List.getLast?_append, List.getLast?_eq_some_getLast
      (List.cons_ne_nil _ _), Option.some_or, ← List.getLast?_eq_some_getLast]
    intro h
    exact hlast.2 (List.mem_of_getLast? h)

/-- By induction on the samples of a family, with those read before. -/
theorem parseFrom_series {series : List Series} (hf : f.WellFormed number)
    (hseries : ∀ s ∈ series, s.WellFormed number) {r : Reading V}
    (hcurrent : r.currentFamily = some f.name)
    (hnodup : (r.keys ++ series.map fun s => (f.name ++ s.suffix, s.labels)).Nodup) :
    parseFrom number r (series.flatMap (Series.write f.name) ++ rest) =
      parseFrom number
        { r with samples := r.samples ++ series.flatMap (Series.samples number f.name) } rest := by
  induction series generalizing r with
  | nil => simp
  | cons s series ih =>
    obtain ⟨hs, hseries⟩ := List.forall_mem_cons.mp hseries
    obtain ⟨v, hv⟩ := Option.isSome_iff_exists.mp hs.number
    have hnew : (f.name ++ s.suffix, s.labels) ∉ r.keys := by
      intro hmem
      rw [List.nodup_append] at hnodup
      exact hnodup.2.2 _ hmem _ List.mem_cons_self rfl
    have hwrite : (s :: series).flatMap (Series.write f.name) ++ rest =
        ((f.name ++ s.suffix).toList ++ (renderLabels s.labels none ++ ' ' :: s.value)) ++
          '\n' :: (series.flatMap (Series.write f.name) ++ rest) := by
      simp [Series.write, sample]
    have hrest := ih hseries (r := { r with
      samples := r.samples ++ [⟨f.name ++ s.suffix, s.labels, v⟩] }) hcurrent
      (by simpa [Reading.keys] using hnodup)
    rw [hwrite, parseFrom_line (series_line hf hs), readLine_sample hf hs hcurrent hv hnew,
      Option.bind_some, hrest]
    simp [Series.samples, hv]

theorem head_lines (hf : f.WellFormed number) :
    Line ("# HELP ".toList ++ (f.name.toList ++ ' ' :: f.help.toList)) ∧
      Line ("# TYPE ".toList ++ (f.name.toList ++ ' ' :: f.ty.toList)) := by
  have hname : Inline f.name.toList := inline_of_all hf.name (by decide) (by decide)
  have hspace : Inline [' '] := ⟨by decide, by decide⟩
  have hhelp : Inline "# HELP ".toList := ⟨by decide, by decide⟩
  have htype : Inline "# TYPE ".toList := ⟨by decide, by decide⟩
  have htable : ∀ ty ∈ ["counter", "gauge", "histogram"],
      ty.toList.all nameChar = true := by decide
  have hty : Inline f.ty.toList := inline_of_all (htable _ hf.ty) (by decide) (by decide)
  constructor
  · refine Inline.line (inline_append.mpr ⟨hhelp, inline_append.mpr ⟨hname, ?_⟩⟩) (by simp)
    exact inline_append.mpr ⟨hspace, hf.help⟩
  · refine Inline.line (inline_append.mpr ⟨htype, inline_append.mpr ⟨hname, ?_⟩⟩) (by simp)
    exact inline_append.mpr ⟨hspace, hty⟩

theorem family_lines (name ty help : String) (rest : List Char) :
    family name ty help ++ rest = ("# HELP ".toList ++ (name.toList ++ ' ' :: help.toList)) ++
      '\n' :: (("# TYPE ".toList ++ (name.toList ++ ' ' :: ty.toList)) ++ '\n' :: rest) := by
  unfold family
  generalize "# HELP ".toList = start
  generalize "# TYPE ".toList = next
  simp

theorem parseFrom_family {r : Reading V} (hf : f.WellFormed number) (hnew : f.name ∉ r.families)
    (hnodup : (r.keys ++ f.keys).Nodup) :
    parseFrom number r (f.write ++ rest) =
      parseFrom number ⟨r.families ++ [f.name], some f.name, r.samples ++ f.samples number⟩
        rest := by
  obtain ⟨hhelp, htype⟩ := head_lines hf
  have hwrite := family_lines f.name f.ty f.help (f.series.flatMap (Series.write f.name) ++ rest)
  rw [Family.write, List.append_assoc, hwrite, parseFrom_line hhelp, readLine_help,
    Option.bind_some, parseFrom_line htype, readLine_type hf hnew, Option.bind_some]
  exact parseFrom_series hf hf.series rfl hnodup

theorem keys_samples (hf : f.WellFormed number) :
    (f.samples number).map (fun s => (s.name, s.labels)) = f.keys := by
  have hmap : ∀ series : List Series, (∀ s ∈ series, s.WellFormed number) →
      (series.flatMap (Series.samples number f.name)).map (fun s => (s.name, s.labels)) =
        series.map fun s => (f.name ++ s.suffix, s.labels) := by
    intro series hseries
    induction series with
    | nil => rfl
    | cons s series ih =>
      obtain ⟨hs, hseries⟩ := List.forall_mem_cons.mp hseries
      obtain ⟨v, hv⟩ := Option.isSome_iff_exists.mp hs.number
      rw [List.flatMap_cons, List.map_append, ih hseries]
      simp [Series.samples, hv]
  exact hmap f.series hf.series

/-- A scrape that is written can be read: no family and no sample comes twice. -/
structure WellFormed (number : List Char → Option V) (families : List Family) : Prop where
  each : ∀ f ∈ families, f.WellFormed number
  names : (families.map Family.name).Nodup
  keys : (families.flatMap Family.keys).Nodup

/-- By induction on the families, with those read before. -/
theorem parseFrom_families {families : List Family} (hf : ∀ f ∈ families, f.WellFormed number)
    {r : Reading V} (hnames : (r.families ++ families.map Family.name).Nodup)
    (hkeys : (r.keys ++ families.flatMap Family.keys).Nodup) :
    (parseFrom number r (families.flatMap Family.write)).map Reading.samples =
      some (r.samples ++ families.flatMap (Family.samples number)) := by
  induction families generalizing r with
  | nil => simp [parseFrom_nil]
  | cons f families ih =>
    obtain ⟨hfirst, hf⟩ := List.forall_mem_cons.mp hf
    rw [List.flatMap_cons, ← List.append_assoc] at hkeys
    have hnew : f.name ∉ r.families := by
      intro hmem
      rw [List.nodup_append] at hnames
      exact hnames.2.2 _ hmem _ List.mem_cons_self rfl
    have hprior : Reading.keys (⟨r.families ++ [f.name], some f.name,
        r.samples ++ f.samples number⟩ : Reading V) = r.keys ++ f.keys := by
      rw [Reading.keys, List.map_append, keys_samples hfirst]
      rfl
    rw [List.flatMap_cons, parseFrom_family hfirst hnew (List.nodup_append.mp hkeys).1,
      ih hf (by simpa using hnames) (by rw [hprior]; exact hkeys)]
    simp

/-- What is written is read again. -/
theorem parse_write {families : List Family} (h : WellFormed number families) :
    parseSamples number (families.flatMap Family.write) =
      some (families.flatMap (Family.samples number)) := by
  have hread := parseFrom_families h.each (r := ⟨[], none, []⟩) (by simpa using h.names)
    (by simpa [Reading.keys] using h.keys)
  simpa [parseSamples] using hread

/-- What tells the samples of one family apart. -/
def Series.key (s : Series) : String × List Label := (s.suffix, s.labels)

theorem keys_nodup (h : (f.series.map Series.key).Nodup) : f.keys.Nodup := by
  have hkeys : f.keys = (f.series.map Series.key).map fun k => (f.name ++ k.1, k.2) := by
    rw [List.map_map]
    rfl
  rw [hkeys]
  refine h.map ?_
  intro a b hab
  simp only [Prod.mk.injEq, String.append_right_inj] at hab
  exact Prod.ext hab.1 hab.2

theorem mem_keys (hf : f.WellFormed number) {k : String × List Label} (h : k ∈ f.keys) :
    ∃ suffix ∈ "" :: suffixes, k.1 = f.name ++ suffix := by
  obtain ⟨s, hs, rfl⟩ := List.mem_map.mp h
  exact ⟨s.suffix, (hf.series s hs).suffix, rfl⟩

/-- Families are apart if their names are, whatever the suffixes. -/
theorem wellFormed_of_names {families : List Family} (hf : ∀ f ∈ families, f.WellFormed number)
    (hkeys : ∀ f ∈ families, (f.series.map Series.key).Nodup)
    (hnames : (families.map Family.name).Pairwise fun a b =>
      ∀ s ∈ "" :: suffixes, ∀ s' ∈ "" :: suffixes, a ++ s ≠ b ++ s') :
    WellFormed number families where
  each := hf
  names := hnames.imp fun {a b} h hab =>
    h "" List.mem_cons_self "" List.mem_cons_self (by rw [hab])
  keys := by
    rw [List.nodup_flatMap]
    refine ⟨fun f hmem => keys_nodup (hkeys f hmem), ?_⟩
    rw [List.pairwise_map] at hnames
    refine hnames.imp_of_mem fun {f g} hfmem hgmem h => ?_
    intro k hk hk'
    obtain ⟨s, hs, hname⟩ := mem_keys (hf f hfmem) hk
    obtain ⟨s', hs', hname'⟩ := mem_keys (hf g hgmem) hk'
    exact h s hs s' hs' (hname.symm.trans hname')

/-- Each sample that is read is told apart from the others. -/
theorem samples_nodup {families : List Family} (h : WellFormed number families) :
    ((families.flatMap (Family.samples number)).map fun s => (s.name, s.labels)).Nodup := by
  have hkeys : ∀ l : List Family, (∀ f ∈ l, f.WellFormed number) →
      (l.flatMap (Family.samples number)).map (fun s => (s.name, s.labels)) =
        l.flatMap Family.keys := by
    intro l hl
    induction l with
    | nil => rfl
    | cons f l ih =>
      obtain ⟨hf, hl⟩ := List.forall_mem_cons.mp hl
      rw [List.flatMap_cons, List.map_append, keys_samples hf, ih hl, List.flatMap_cons]
  rw [hkeys families h.each]
  exact h.keys

/-- A line that is written is among the samples that are read. -/
theorem mem_samples {families : List Family} (h : ∀ f ∈ families, f.WellFormed number)
    (hf : f ∈ families) (hs : s ∈ f.series) :
    ∃ v, number s.value = some v ∧
      ⟨f.name ++ s.suffix, s.labels, v⟩ ∈ families.flatMap (Family.samples number) := by
  obtain ⟨v, hv⟩ := Option.isSome_iff_exists.mp ((h f hf).series s hs).number
  refine ⟨v, hv, List.mem_flatMap.mpr ⟨f, hf, List.mem_flatMap.mpr ⟨s, hs, ?_⟩⟩⟩
  simp [Series.samples, hv]

end RoundTrip

end Pccs.Exposition
