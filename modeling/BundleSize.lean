import BundleSize.Main
import BundleSize.Server
import BundleSize.SourceMap.Encoding
import BundleSize.Proofs.Vlq
import BundleSize.Proofs.Lookup
import BundleSize.Proofs.Positions
import BundleSize.Proofs.RoundTrip
import BundleSize.Proofs.Translation
import BundleSize.Proofs.Attribution
import BundleSize.Proofs.RangeOrder
import BundleSize.Proofs.Reports
import BundleSize.Proofs.Coverage
import BundleSize.Proofs.Adjacency
import BundleSize.Proofs.Nearest
import BundleSize.Proofs.Rounding
import BundleSize.Proofs.Diagnostics
import BundleSize.Proofs.Ranking
import BundleSize.Proofs.Modes
import BundleSize.SourceMap.Sections
import BundleSize.Proofs.Sections
import BundleSize.Proofs.Elimination
import BundleSize.Proofs.Unmoved
import BundleSize.Proofs.Acceptance
import BundleSize.SourceMap.Grammar
import BundleSize.Proofs.Grammar
import BundleSize.Proofs.Accounting
import BundleSize.Syntax.Layout
import BundleSize.Proofs.Characters
import BundleSize.Proofs.Extraction
import BundleSize.Proofs.Runs
import BundleSize.Proofs.Endings
import BundleSize.Proofs.Writes
import BundleSize.Proofs.Queries
import BundleSize.Search.Stable
import BundleSize.Proofs.Scan
import BundleSize.Proofs.SelectedSource
import BundleSize.Proofs.TextEnd
import BundleSize.Proofs.Misplaced
import BundleSize.Proofs.Aliases
import BundleSize.Proofs.LineFeeds
import BundleSize.Proofs.NodeText
import BundleSize.Proofs.Recall
import BundleSize.Proofs.Explanations
import BundleSize.Proofs.Origins
import BundleSize.Syntax.Comments
import BundleSize.Proofs.Comments
import BundleSize.Syntax.Edits
import BundleSize.Proofs.Nesting
import BundleSize.Syntax.Marking
import BundleSize.Proofs.SyntaxErrors
import BundleSize.Proofs.Overflow
import BundleSize.Proofs.RankedReports
import BundleSize.Proofs.Limits
import BundleSize.Pattern.Greedy
import BundleSize.Proofs.MapComment
import BundleSize.Proofs.Walk
import BundleSize.Proofs.Tokens
import BundleSize.Offsets.CodeUnits
import BundleSize.Proofs.CodeUnits
import BundleSize.Proofs.Minifications
import BundleSize.SourceMap.Spelling
import BundleSize.Proofs.Spellings
import BundleSize.Proofs.Percentages
