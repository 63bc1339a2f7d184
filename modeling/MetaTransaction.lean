import MetaTransaction.Abi
import MetaTransaction.Address
import MetaTransaction.Bundle
import MetaTransaction.BundleFile
import MetaTransaction.Bytes
import MetaTransaction.Chain
import MetaTransaction.CommandLine.Arguments
import MetaTransaction.CommandLine.Invocation
import MetaTransaction.CommandLine.Log
import MetaTransaction.CommandLine.Run
import MetaTransaction.Configuration.Basic
import MetaTransaction.Configuration.Load
import MetaTransaction.Configuration.Reference
import MetaTransaction.Configuration.Validation
import MetaTransaction.Confirmation.Cancellation
import MetaTransaction.Confirmation.Classification
import MetaTransaction.Confirmation.Script
import MetaTransaction.Confirmation.Settings
import MetaTransaction.Confirmation.Wait
import MetaTransaction.Confirmation.Window
import MetaTransaction.Decimal
import MetaTransaction.Decimal.Shortest
import MetaTransaction.Duration
import MetaTransaction.Environment
import MetaTransaction.Error
import MetaTransaction.FileSystem
import MetaTransaction.Hex
import MetaTransaction.Identifier
import MetaTransaction.Json.Basic
import MetaTransaction.Json.Bundle
import MetaTransaction.Json.Chain
import MetaTransaction.Json.Parser
import MetaTransaction.Json.Printer
import MetaTransaction.Json.Record
import MetaTransaction.Json.Scalar
import MetaTransaction.Json.Token
import MetaTransaction.Keccak
import MetaTransaction.Main
import MetaTransaction.Node.Basic
import MetaTransaction.Node.Endpoint
import MetaTransaction.Node.Payload
import MetaTransaction.Node.Reader
import MetaTransaction.Node.Script
import MetaTransaction.Nonce
import MetaTransaction.Numeral
import MetaTransaction.Outcome
import MetaTransaction.Proofs.Abi
import MetaTransaction.Proofs.Abi.Decoding
import MetaTransaction.Proofs.BundleFile
import MetaTransaction.Proofs.Calldata
import MetaTransaction.Proofs.Commitment
import MetaTransaction.Proofs.Configuration.Comment
import MetaTransaction.Proofs.Configuration.Override
import MetaTransaction.Proofs.Configuration.Substitution
import MetaTransaction.Proofs.Configuration.Validation
import MetaTransaction.Proofs.Confirmation.Cancellation
import MetaTransaction.Proofs.Confirmation.Candidates
import MetaTransaction.Proofs.Confirmation.Classification
import MetaTransaction.Proofs.Confirmation.Coverage
import MetaTransaction.Proofs.Confirmation.Deadline
import MetaTransaction.Proofs.Confirmation.Emitter
import MetaTransaction.Proofs.Confirmation.Independence
import MetaTransaction.Proofs.Confirmation.Listing
import MetaTransaction.Proofs.Confirmation.Overlap
import MetaTransaction.Proofs.Confirmation.Reference
import MetaTransaction.Proofs.Confirmation.Resolution
import MetaTransaction.Proofs.Confirmation.Scan
import MetaTransaction.Proofs.Confirmation.Signal
import MetaTransaction.Proofs.Confirmation.Simulation
import MetaTransaction.Proofs.Confirmation.Timeout
import MetaTransaction.Proofs.Confirmation.Trace
import MetaTransaction.Proofs.Confirmation.Undisturbed
import MetaTransaction.Proofs.Confirmation.View
import MetaTransaction.Proofs.Confirmation.Windows
import MetaTransaction.Proofs.Except
import MetaTransaction.Proofs.Hex
import MetaTransaction.Proofs.Identifier
import MetaTransaction.Proofs.Json.Faithful
import MetaTransaction.Proofs.Json.RoundTrip
import MetaTransaction.Proofs.Json.Token
import MetaTransaction.Proofs.Json.Value
import MetaTransaction.Proofs.Node.Payload
import MetaTransaction.Proofs.Node.Query
import MetaTransaction.Proofs.Node.Refinement
import MetaTransaction.Proofs.Nonce
import MetaTransaction.Proofs.Relay.Broadcast
import MetaTransaction.Proofs.Relay.Exchange
import MetaTransaction.Proofs.Relay.Gas
import MetaTransaction.Proofs.Relay.Key
import MetaTransaction.Proofs.Relay.Nonce
import MetaTransaction.Proofs.Relay.Submission
import MetaTransaction.Proofs.Relay.Trust
import MetaTransaction.Relay.Basic
import MetaTransaction.Relay.Local
import MetaTransaction.Relay.Script
import MetaTransaction.Relay.Service
import MetaTransaction.Text.Quoted
import MetaTransaction.Text.Split
import MetaTransaction.Toml.Parser
import MetaTransaction.Toml.Scalar
import MetaTransaction.Toml.Table
import MetaTransaction.Toml.Token
