import MxSdk.Utils.Base64Accumulator
import MxSdk.Utils.HexAgreement
import MxSdk.Vendor.Bech32
import MxSdk.Vendor.KeccakSponge
import MxSdk.Vendor.AesModes
import MxSdk.Vendor.IntegerDivision
import MxSdk.Vendor.Json.Strings
import MxSdk.Vendor.Json.RoundTrip
import MxSdk.Lib.Superposition
import MxSdk.Lib.Utf8
import MxSdk.Lib.OrderedMap
import MxSdk.Account.AddressText
import MxSdk.Account.AddressTyping
import MxSdk.Account.AddressDistance
import MxSdk.Internal.BigUIntArithmetic
import MxSdk.Lib.Decimal
import MxSdk.Lib.Record
import MxSdk.Transaction.Overwrite
import MxSdk.Transaction.Fidelity
import MxSdk.Transaction.PrettyString
import MxSdk.Transaction.AmountGrammar
import MxSdk.Transaction.GasCoverage
import MxSdk.Transaction.IssuePayload
import MxSdk.Transaction.SignatureLength
import MxSdk.Cli.CliConfig
import MxSdk.Cli.CliHandler
import MxSdk.Provider.ApiResponse
import MxSdk.Provider.Answers
import MxSdk.Cli.SealedKey
import MxSdk.Cli.Sessions
import MxSdk.Cli.Crashes
import MxSdk.Cli.EndToEnd
