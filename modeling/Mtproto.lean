import Mtproto.Exchange.Dialogue
import Mtproto.Peer
import Mtproto.Proofs.PowMod
import Mtproto.Proofs.Aes
import Mtproto.Proofs.Bytes
import Mtproto.Proofs.Ige
import Mtproto.Proofs.Streaming
import Mtproto.Proofs.Frames
import Mtproto.Proofs.Pipe
import Mtproto.Proofs.Blob
import Mtproto.Proofs.Wire
import Mtproto.Proofs.Act
import Mtproto.Proofs.Triple
import Mtproto.Proofs.Envelope
import Mtproto.Proofs.Framer
import Mtproto.Proofs.Handshake
import Mtproto.Proofs.KeyExchange
import Mtproto.Proofs.Primality
import Mtproto.Proofs.Authentication
import Mtproto.Proofs.Lifecycle
import Mtproto.Proofs.Server
import Mtproto.Proofs.Agreement
import Mtproto.Proofs.Writing
import Mtproto.Proofs.Session
import Mtproto.Proofs.Connection
import Mtproto.Proofs.HangUp
import Mtproto.Proofs.History
import Mtproto.Proofs.Unauthenticated
import Mtproto.Proofs.Ledger
import Mtproto.Proofs.Sends
import Mtproto.Proofs.Contents
import Mtproto.Proofs.Bookkeeping
import Mtproto.Proofs.Grammar
import Mtproto.Proofs.Messages
import Mtproto.Proofs.ReaderPrograms
import Mtproto.Proofs.ReaderFailure
import Mtproto.Proofs.Snapshot
import Mtproto.Proofs.Identifiers
import Mtproto.Proofs.Numbering
import Mtproto.Proofs.Resumption
import Mtproto.Proofs.Containers
import Mtproto.Proofs.Wrappings
import Mtproto.Proofs.Nesting
import Mtproto.Proofs.Draws
import Mtproto.Proofs.Preconditions
import Mtproto.Proofs.Faults
import Mtproto.Proofs.Offsets
import Mtproto.Proofs.Restoration
import Mtproto.Proofs.StrongLiars
import Mtproto.Proofs.Misbehaviour
import Mtproto.Proofs.Salts
import Mtproto.Proofs.Handle
import Mtproto.Proofs.ProbablePrimes
import Mtproto.Proofs.Factorization
import Mtproto.Proofs.RhoCycles
import Mtproto.Proofs.Malformed
import Mtproto.Proofs.Challenge
import Mtproto.Proofs.SharedSecret
import Mtproto.Proofs.Records
import Mtproto.Proofs.Shapes
import Mtproto.Proofs.Classification
import Mtproto.Proofs.Buffers
import Mtproto.Proofs.IgeRecurrence
import Mtproto.Proofs.Parsing
import Mtproto.Proofs.KeyForms
import Mtproto.Proofs.Alignment
import Mtproto.Proofs.InflateLimits
import Mtproto.Proofs.DeflateBits
import Mtproto.Proofs.DeflateCodes
import Mtproto.Proofs.DeflateSymbols
import Mtproto.Proofs.DeflateBlocks
import Mtproto.Proofs.GzipMembers
import Mtproto.Proofs.Packing
import Mtproto.Proofs.Base64
import Mtproto.Proofs.PemLayouts
import Mtproto.Proofs.Addresses
import Mtproto.Proofs.IdentifiersClosedForm
import Mtproto.Proofs.WriterFailure
import Mtproto.Proofs.Widths
import Mtproto.Proofs.Words
