import LineEditor.Command.Delimited

/-!
# Texts between delimiters

A delimiter in a text gets a backslash when it is written, and any other backslash takes along what
follows it. What is read of a text and what can be written are the same: the scan and the writing undo
each other.
-/

namespace LineEditor.Delimited

/-- A text that can be written between delimiters: what stands in it as an escape is no escaped
delimiter. A backslash can stand last only where no delimiter closes the text. -/
inductive IsBody (delim : Char) (closed : Bool) : List Char → Prop
  | nil : IsBody delim closed []
  | backslash : closed = false → IsBody delim closed ['\\']
  | plain {c : Char} {body : List Char} : c ≠ '\\' → IsBody delim closed body →
      IsBody delim closed (c :: body)
  | pair {c : Char} {body : List Char} : c ≠ delim → IsBody delim closed body →
      IsBody delim closed ('\\' :: c :: body)

/-- A text as it is written between delimiters: a delimiter in it gets a backslash. -/
def escape (delim : Char) : List Char → List Char
  | [] => []
  | c :: rest =>
    if c = delim then '\\' :: c :: escape delim rest
    else if c = '\\' then
      match rest with
      | [] => [c]
      | d :: rest => c :: d :: escape delim rest
    else c :: escape delim rest

/-- The text of which this has been read. -/
def text (delim : Char) (d : Delimited) : List Char :=
  escape delim d.body ++ if d.closed then delim :: d.rest else d.rest

structure Read (delim : Char) (d : Delimited) : Prop where
  isBody : IsBody delim d.closed d.body
  rest_eq_nil : d.closed = false → d.rest = []

variable {delim : Char}

theorem scan_delim (rest : List Char) : scan delim (delim :: rest) = ⟨[], rest, true⟩ := by
  rw [scan.eq_def]
  exact if_pos rfl

theorem scan_escaped (hne : ¬ '\\' = delim) (c : Char) (rest : List Char) :
    scan delim ('\\' :: c :: rest) =
      (scan delim rest).prepend (if c = delim then [c] else ['\\', c]) := by
  rw [scan.eq_def]
  dsimp only
  rw [if_neg hne, if_pos rfl]

theorem scan_plain {c : Char} (hne : ¬c = delim) (hback : ¬c = '\\') (rest : List Char) :
    scan delim (c :: rest) = (scan delim rest).prepend [c] := by
  rw [scan.eq_def]
  dsimp only
  rw [if_neg hne, if_neg hback]

theorem scan_backslash (hne : ¬ '\\' = delim) : scan delim ['\\'] = ⟨['\\'], [], false⟩ := by
  rw [scan.eq_def]
  dsimp only
  rw [if_neg hne, if_pos rfl]

theorem escape_delim (rest : List Char) :
    escape delim (delim :: rest) = '\\' :: delim :: escape delim rest := by
  rw [escape.eq_def]
  exact if_pos rfl

theorem escape_pair (hne : ¬ '\\' = delim) (c : Char) (rest : List Char) :
    escape delim ('\\' :: c :: rest) = '\\' :: c :: escape delim rest := by
  rw [escape.eq_def]
  dsimp only
  rw [if_neg hne, if_pos rfl]

theorem escape_backslash (hne : ¬ '\\' = delim) : escape delim ['\\'] = ['\\'] := by
  rw [escape.eq_def]
  dsimp only
  rw [if_neg hne, if_pos rfl]

theorem escape_plain {c : Char} (hne : ¬c = delim) (hback : ¬c = '\\') (rest : List Char) :
    escape delim (c :: rest) = c :: escape delim rest := by
  rw [escape.eq_def]
  dsimp only
  rw [if_neg hne, if_neg hback]

/-- What is read is the text, cut at its delimiter. By the cases of the scan; a backslash takes along
what follows it. -/
theorem scan_read (hne : '\\' ≠ delim) (s : List Char) :
    (scan delim s).Read delim ∧ (scan delim s).text delim = s := by
  induction s using scan.induct delim with
  | case1 => exact ⟨⟨.nil, fun _ => rfl⟩, rfl⟩
  | case2 rest =>
    rw [scan_delim]
    exact ⟨⟨.nil, fun h => by cases h⟩, rfl⟩
  | case3 =>
    rw [scan_backslash hne]
    refine ⟨⟨.backslash rfl, fun _ => rfl⟩, ?_⟩
    rw [text, escape_backslash hne]
    rfl
  | case4 c rest _ ih =>
    obtain ⟨⟨hbody, hrest⟩, htext⟩ := ih
    rw [scan_escaped hne]
    by_cases hc : c = delim
    · subst hc
      rw [if_pos rfl]
      refine ⟨⟨.plain (Ne.symm hne) hbody, hrest⟩, ?_⟩
      rw [text, prepend, List.singleton_append, escape_delim]
      exact congrArg (fun s => '\\' :: c :: s) htext
    · rw [if_neg hc]
      refine ⟨⟨.pair hc hbody, hrest⟩, ?_⟩
      rw [text, prepend, List.cons_append, List.singleton_append, escape_pair hne]
      exact congrArg (fun s => '\\' :: c :: s) htext
  | case5 c rest hdelim hback ih =>
    obtain ⟨⟨hbody, hrest⟩, htext⟩ := ih
    rw [scan_plain hdelim hback]
    refine ⟨⟨.plain hback hbody, hrest⟩, ?_⟩
    rw [text, prepend, List.singleton_append, escape_plain hdelim hback]
    exact congrArg (c :: ·) htext

/-- Such a text is read as it was written. -/
theorem scan_text (hne : '\\' ≠ delim) {d : Delimited} (h : d.Read delim) :
    scan delim (d.text delim) = d := by
  obtain ⟨body, rest, closed⟩ := d
  obtain ⟨hbody, hrest⟩ := h
  unfold text
  dsimp only at hbody hrest ⊢
  generalize htail : (if closed then delim :: rest else rest) = tail
  have hend : scan delim tail = ⟨[], rest, closed⟩ := by
    cases closed with
    | true =>
      subst htail
      exact scan_delim rest
    | false =>
      obtain rfl := hrest rfl
      subst htail
      rfl
  induction hbody with
  | nil => exact hend
  | backslash hopen =>
    subst hopen
    obtain rfl := hrest rfl
    subst htail
    rw [escape_backslash hne]
    exact scan_backslash hne
  | @plain c body hback _ ih =>
    by_cases hdelim : c = delim
    · subst hdelim
      rw [escape_delim, List.cons_append, List.cons_append, scan_escaped hne, ih, if_pos rfl]
      rfl
    · rw [escape_plain hdelim hback, List.cons_append, scan_plain hdelim hback, ih]
      rfl
  | @pair c body hdelim _ ih =>
    rw [escape_pair hne, List.cons_append, List.cons_append, scan_escaped hne, ih, if_neg hdelim]
    rfl

theorem scan_eq_iff (hne : '\\' ≠ delim) {s : List Char} {d : Delimited} :
    scan delim s = d ↔ d.Read delim ∧ d.text delim = s := by
  constructor
  · rintro rfl
    exact scan_read hne s
  · rintro ⟨hread, rfl⟩
    exact scan_text hne hread

end LineEditor.Delimited
