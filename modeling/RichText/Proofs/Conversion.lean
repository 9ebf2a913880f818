import RichText.Proofs.QuoteKeys

/-!
# From HTML to Markdown

A message read from HTML may have entities that Markdown has no marks for: a block quote in the
middle of a line, or bold type within code (`text_not_converted`).  Where it has none of these,
which is what `Markdown.Expressible` says, it is written in Markdown so that its text is read again
(`text_converted`).

Whatever the HTML, its entities cover text and no block quote is within another
(`Gathering.Quoting.filled`), so that nothing else has to be asked.
-/

namespace RichText

open Markdown (Expressible)

/-! ## Conversion -/

namespace Dialect

/-- What HTML is read as has the text that is read again once it is written in Markdown. -/
def Converts (reading writing : Settings) (markup : Text) : Prop :=
  (markdown.read writing (markdown.write writing (html.read reading markup))).text =
    (html.read reading markup).text

/-- **Conversion from HTML to Markdown keeps the text**, as long as positions reach to its end, if
Markdown can express what was read: in the nesting that is written, code encloses nothing, block
quotes start with a line and have no marks right before them, and languages have one line; nothing
is asked of formatting that is left out. -/
theorem text_converted (reading writing : Settings) {markup : Text}
    (short : Gathering.Short (html.untrimmed reading markup))
    (expressible : Expressible writing (html.read reading markup)) :
    Converts reading writing markup := by
  have filled := (Html.quoting_ofSource reading markup).filled short (.refl _)
  calc (markdown.read writing (markdown.write writing (html.read reading markup))).text
      = (html.read reading markup).text.trim := expressible.text_read filled
    _ = (html.read reading markup).text := Text.trim_trim _

/-- A block quote behind a line break, and code around an emoji, which is left out. -/
theorem text_converted_quote_and_code :
    (Gathering.Short (html.untrimmed {} ("a\n<blockquote>b <b>c</b></blockquote>" ++
        "<emoji document_id=5><code>😀</code></emoji>").toList) ∧
      Expressible {} (html.read {} ("a\n<blockquote>b <b>c</b></blockquote>" ++
        "<emoji document_id=5><code>😀</code></emoji>").toList)) ∧
    Converts {} {} ("a\n<blockquote>b <b>c</b></blockquote>" ++
      "<emoji document_id=5><code>😀</code></emoji>").toList := by
  obtain ⟨markup, hmarkup⟩ : ∃ markup, markup = ("a\n<blockquote>b <b>c</b></blockquote>" ++
      "<emoji document_id=5><code>😀</code></emoji>").toList := ⟨_, rfl⟩
  rw [← hmarkup]
  have text : html.untrimmed {} markup = "a\nb c😀".toList := by
    rw [hmarkup]
    decide +kernel
  have read : html.read {} markup = ⟨"a\nb c😀".toList, [⟨4, 1, .bold⟩, ⟨2, 3, .blockquote⟩,
      ⟨5, 2, .code⟩, ⟨5, 2, .customEmoji 5⟩]⟩ := by
    rw [hmarkup]
    decide +kernel
  have short : Gathering.Short (html.untrimmed {} markup) := by
    rw [text]
    decide
  have sorted : Forest.byOffset [⟨4, 1, .bold⟩, ⟨2, 3, .blockquote⟩, ⟨5, 2, .code⟩,
      ⟨5, 2, .customEmoji 5⟩] = [(⟨2, 3, .blockquote⟩, 1), (⟨4, 1, .bold⟩, 0),
        (⟨5, 2, .code⟩, 2), (⟨5, 2, .customEmoji 5⟩, 3)] := by
    simp [Forest.byOffset, List.mergeSort]
  have nesting : Forest.ofEntities 7 [⟨4, 1, .bold⟩, ⟨2, 3, .blockquote⟩, ⟨5, 2, .code⟩,
      ⟨5, 2, .customEmoji 5⟩] =
      .cons ⟨1, ⟨2, 3, .blockquote⟩, 2, 5⟩ (.cons ⟨0, ⟨4, 1, .bold⟩, 4, 5⟩ .nil .nil)
        (.cons ⟨2, ⟨5, 2, .code⟩, 5, 7⟩
          (.cons ⟨3, ⟨5, 2, .customEmoji 5⟩, 5, 7⟩ .nil .nil) .nil) := by
    rw [Forest.ofEntities, sorted]
    decide +kernel
  have expressible : Expressible {} (html.read {} markup) := by
    rw [Expressible, read, show Utf16.unitCount "a\nb c😀".toList = 7 by decide, nesting]
    decide +kernel
  exact ⟨⟨short, expressible⟩, text_converted {} {} short expressible⟩

/-- A block quote in the middle of a line is read as text. -/
lemma quote_in_line : ¬ Converts {} {} "a<blockquote>b</blockquote>".toList := by
  have read : html.read {} "a<blockquote>b</blockquote>".toList =
      ⟨"ab".toList, [⟨1, 1, .blockquote⟩]⟩ := by decide +kernel
  have written : markdown.write {} ⟨"ab".toList, [⟨1, 1, .blockquote⟩]⟩ = "a> b<<".toList :=
    (Writer.write_of_inOrder (by decide)).trans (by decide +kernel)
  rw [Converts, read, written]
  decide +kernel

/-- So is a block quote behind the mark that ends bold type, where a line of the text starts. -/
lemma quote_behind_bold : ¬ Converts {} {} "<b>a\n</b><blockquote>b</blockquote>".toList := by
  have read : html.read {} "<b>a\n</b><blockquote>b</blockquote>".toList =
      ⟨"a\nb".toList, [⟨0, 2, .bold⟩, ⟨2, 1, .blockquote⟩]⟩ := by decide +kernel
  have written : markdown.write {} ⟨"a\nb".toList, [⟨0, 2, .bold⟩, ⟨2, 1, .blockquote⟩]⟩ =
      "**a\n**> b<<".toList := (Writer.write_of_inOrder (by decide)).trans (by decide +kernel)
  rw [Converts, read, written]
  decide +kernel

/-- The marks of bold type are text in code. -/
lemma bold_in_code : ¬ Converts {} {} "<code>a<b>b</b></code>".toList := by
  have read : html.read {} "<code>a<b>b</b></code>".toList =
      ⟨"ab".toList, [⟨1, 1, .bold⟩, ⟨0, 2, .code⟩]⟩ := by decide +kernel
  have sorted : ([⟨1, 1, .bold⟩, ⟨0, 2, .code⟩] : List Entity).mergeSort
      (fun first second => first.offset ≤ second.offset) = [⟨0, 2, .code⟩, ⟨1, 1, .bold⟩] := by
    simp [List.mergeSort]
  have written : markdown.write {} ⟨"ab".toList, [⟨1, 1, .bold⟩, ⟨0, 2, .code⟩]⟩ =
      "`a**b**`".toList := by
    rw [write, Style.write, Writer.write, sorted]
    decide +kernel
  rw [Converts, read, written]
  decide +kernel

/-- The second line of a language is text of the code block. -/
lemma language_on_two_lines :
    ¬ Converts {} {} "<pre><code class=\"language-a\nb\">c</code></pre>".toList := by
  have read : html.read {} "<pre><code class=\"language-a\nb\">c</code></pre>".toList =
      ⟨"c".toList, [⟨0, 1, .pre "a\nb".toList⟩]⟩ := by decide +kernel
  have written : markdown.write {} ⟨"c".toList, [⟨0, 1, .pre "a\nb".toList⟩]⟩ =
      "```a\nb\nc```".toList := (Writer.write_of_inOrder (by decide)).trans (by decide +kernel)
  rw [Converts, read, written]
  decide +kernel

/-- Each condition of `Markdown.Expressible` is needed: these messages violate one each. -/
theorem text_not_converted :
    ¬ Converts {} {} "a<blockquote>b</blockquote>".toList ∧
      ¬ Converts {} {} "<b>a\n</b><blockquote>b</blockquote>".toList ∧
      ¬ Converts {} {} "<code>a<b>b</b></code>".toList ∧
      ¬ Converts {} {} "<pre><code class=\"language-a\nb\">c</code></pre>".toList :=
  ⟨quote_in_line, quote_behind_bold, bold_in_code, language_on_two_lines⟩

end Dialect

end RichText
