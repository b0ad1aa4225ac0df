import SearchFilter.Filter.Grammar
import SearchFilter.Filter.Printer
import SearchFilter.Main
import SearchFilter.Proofs.Alternatives
import SearchFilter.Proofs.BareValues
import SearchFilter.Proofs.BatchRuns
import SearchFilter.Proofs.CanonicalShape
import SearchFilter.Proofs.Compilation
import SearchFilter.Proofs.Decoding
import SearchFilter.Proofs.Discipline
import SearchFilter.Proofs.ErrorLocations
import SearchFilter.Proofs.Expectations
import SearchFilter.Proofs.Groupings
import SearchFilter.Proofs.IndexTokens
import SearchFilter.Proofs.IntegerMeaning
import SearchFilter.Proofs.NestingLimit
import SearchFilter.Proofs.Outlines
import SearchFilter.Proofs.Printing
import SearchFilter.Proofs.Quoting
import SearchFilter.Proofs.Requests
import SearchFilter.Proofs.Spacing
import SearchFilter.Proofs.WideOperators
import SearchFilter.Query.Regrouping
