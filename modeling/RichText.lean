import RichText.Editing
import RichText.Main
import RichText.Proofs.Conservation
import RichText.Proofs.Conversion
import RichText.Proofs.Coverage
import RichText.Proofs.Html.AttributeLists
import RichText.Proofs.Html.CharacterData
import RichText.Proofs.Html.LinkTargets
import RichText.Proofs.Html.MailLinks
import RichText.Proofs.Histories
import RichText.Proofs.ListOrder
import RichText.Proofs.Markdown.Cursors
import RichText.Proofs.Markdown.LinkStack
import RichText.Proofs.Markdown.Quotes
import RichText.Proofs.Markdown.Rereading
import RichText.Proofs.Markdown.RoundTrip
import RichText.Proofs.Markdown.Structure
import RichText.Proofs.Markdown.Subsequence
import RichText.Proofs.OwnTargets
import RichText.Proofs.Pipeline
import RichText.Proofs.Placeholders
import RichText.Proofs.Splicing
import RichText.Proofs.WithoutEmoji
