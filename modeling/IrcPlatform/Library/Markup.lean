import IrcPlatform.Library.Bytes

/-!
# Markup

The links of a page and the meaning of escaped text, as far as pages are made of plain tags and
the four character references for the marks of the markup itself.
-/

namespace IrcPlatform.Markup

/-- The references for the marks of the markup, and what they mean. -/
def characterReferences : List (Bytes × UInt8) :=
  [(ascii "&amp;", byte '&'), (ascii "&lt;", byte '<'), (ascii "&gt;", byte '>'),
    (ascii "&quot;", byte '"')]

/-- The meaning of a text behind this many bytes of a reference that has been read. -/
def unescapeFrom : Nat → Bytes → Bytes
  | _, [] => []
  | skipped + 1, _ :: rest => unescapeFrom skipped rest
  | 0, c :: rest =>
      match characterReferences.find? fun reference => reference.1.isPrefixOf (c :: rest) with
      | some (text, meaning) => meaning :: unescapeFrom (text.length - 1) rest
      | none => c :: unescapeFrom 0 rest

def unescapeHtml (text : Bytes) : Bytes := unescapeFrom 0 text

structure Link where
  href : Bytes
  text : Bytes
deriving DecidableEq

def linkStart : Bytes := ascii "<a href=\""

/-- The link that a text begins with. -/
def linkAt (text : Bytes) : Option Link :=
  if linkStart.isPrefixOf text then
    let behind := text.drop linkStart.length
    some
      { href := behind.takeWhile (· != byte '"')
        text := ((behind.dropWhile (· != byte '"')).drop 2).takeWhile (· != byte '<') }
  else none

def links : Bytes → List Link
  | [] => []
  | c :: rest => (linkAt (c :: rest)).toList ++ links rest

/-! ## Text between links -/

/-- No link begins in this text, whatever follows. -/
def linkless : Bytes → Bool
  | [] => true
  | c :: rest => (c != byte '<' || rest.head?.any (· != byte 'a')) && linkless rest

theorem linkAt_none {c : UInt8} {rest : Bytes}
    (other : c ≠ byte '<' ∨ rest.head?.any (· != byte 'a') = true) : linkAt (c :: rest) = none := by
  rw [linkAt, if_neg]
  intro starts
  rw [List.isPrefixOf_iff_prefix] at starts
  have whole : byte '<' :: byte 'a' :: ascii " href=\"" <+: c :: rest := starts
  rcases List.cons_prefix_cons.mp whole with ⟨first, more⟩
  rcases other with other | other
  · exact other first.symm
  · rcases more with ⟨later, rfl⟩
    simp at other

theorem links_linkless {front : Bytes} (plain : linkless front = true) (back : Bytes) :
    links (front ++ back) = links back := by
  induction front with
  | nil => rfl
  | cons c rest ih =>
      rw [linkless, Bool.and_eq_true, Bool.or_eq_true, bne_iff_ne] at plain
      have none : linkAt (c :: (rest ++ back)) = none := by
        apply linkAt_none
        refine plain.1.imp_right fun next => ?_
        cases rest with
        | nil => cases next
        | cons first more => exact next
      rw [List.cons_append, links, none, Option.toList_none, List.nil_append, ih plain.2]

theorem linkless_append {front back : Bytes} (plain : linkless front = true)
    (plainBack : linkless back = true) : linkless (front ++ back) = true := by
  induction front with
  | nil => exact plainBack
  | cons c rest ih =>
      rw [linkless, Bool.and_eq_true] at plain
      rw [List.cons_append, linkless, ih plain.2, Bool.and_true]
      cases rest with
      | nil =>
          rw [Bool.or_eq_true] at plain
          rcases plain.1 with other | next
          · rw [other, Bool.true_or]
          · cases next
      | cons first more => exact plain.1

theorem linkless_of_plain {text : Bytes} (plain : byte '<' ∉ text) : linkless text = true := by
  induction text with
  | nil => rfl
  | cons c rest ih =>
      rw [List.mem_cons, not_or] at plain
      rw [linkless, ih plain.2, Bool.and_true, bne_iff_ne.mpr (Ne.symm plain.1), Bool.true_or]

theorem takeWhile_mark {text : Bytes} {mark : UInt8} (free : mark ∉ text) (back : Bytes) :
    (text ++ mark :: back).takeWhile (· != mark) = text ∧
      (text ++ mark :: back).dropWhile (· != mark) = mark :: back := by
  have inside : ∀ c ∈ text, (c != mark) = true := by
    intro c listed
    rw [bne_iff_ne]
    rintro rfl
    exact free listed
  constructor
  · rw [List.takeWhile_append_of_pos inside, List.takeWhile_cons_of_neg (by simp), List.append_nil]
  · rw [List.dropWhile_append_of_pos inside, List.dropWhile_cons_of_neg (by simp)]

/-- A link in a page. -/
theorem links_link {href text : Bytes} (quoted : byte '"' ∉ href) (plainHref : byte '<' ∉ href)
    (plain : byte '<' ∉ text) (back : Bytes) :
    links (linkStart ++ href ++ ascii "\">" ++ text ++ ascii "</a>" ++ back) =
      { href := href, text := text } :: links back := by
  have shape : linkStart ++ href ++ ascii "\">" ++ text ++ ascii "</a>" ++ back =
      byte '<' :: (ascii "a href=\"" ++ (href ++ byte '"' :: (byte '>' ::
        (text ++ byte '<' :: (ascii "/a>" ++ back))))) := by
    simp only [List.append_assoc]
    rfl
  have begins : linkStart <+: byte '<' :: (ascii "a href=\"" ++ (href ++ byte '"' :: (byte '>' ::
      (text ++ byte '<' :: (ascii "/a>" ++ back))))) := List.prefix_append linkStart _
  have found : linkAt (byte '<' :: (ascii "a href=\"" ++ (href ++ byte '"' :: (byte '>' ::
      (text ++ byte '<' :: (ascii "/a>" ++ back)))))) = some { href := href, text := text } := by
    have behind : (byte '<' :: (ascii "a href=\"" ++ (href ++ byte '"' :: (byte '>' ::
        (text ++ byte '<' :: (ascii "/a>" ++ back)))))).drop linkStart.length =
        href ++ byte '"' :: (byte '>' :: (text ++ byte '<' :: (ascii "/a>" ++ back))) :=
      @List.drop_left _ linkStart _
    rw [linkAt, if_pos (List.isPrefixOf_iff_prefix.mpr begins), behind]
    dsimp only
    rw [(takeWhile_mark quoted _).1, (takeWhile_mark quoted _).2]
    have next : (byte '"' :: byte '>' :: (text ++ byte '<' :: (ascii "/a>" ++ back))).drop 2 =
        text ++ byte '<' :: (ascii "/a>" ++ back) := rfl
    rw [next, (takeWhile_mark plain _).1]
  have rest : ascii "a href=\"" ++ (href ++ byte '"' :: (byte '>' ::
      (text ++ byte '<' :: (ascii "/a>" ++ back)))) =
      (ascii "a href=\"" ++ (href ++ (ascii "\">" ++ (text ++ ascii "</a>")))) ++ back := by
    simp only [List.append_assoc]
    rfl
  have spent : linkless (ascii "a href=\"" ++ (href ++ (ascii "\">" ++ (text ++ ascii "</a>")))) =
      true :=
    linkless_append rfl (linkless_append (linkless_of_plain plainHref)
      (linkless_append rfl (linkless_append (linkless_of_plain plain) rfl)))
  rw [shape, links, found, rest, links_linkless spent]
  rfl

example : links (ascii "<h1>a</h1><a href=\"b\">c</a><br><a href=\"d\"></a>") =
    [{ href := ascii "b", text := ascii "c" }, { href := ascii "d", text := [] }] := by
  decide +kernel

end IrcPlatform.Markup
