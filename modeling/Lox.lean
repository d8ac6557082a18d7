import Lox.Main
import Lox.Files
import Lox.Proofs.Context
import Lox.Proofs.Resolution
import Lox.Proofs.Returns
import Lox.Proofs.Renaming
import Lox.Proofs.Parse.Recovery
import Lox.Proofs.Parse.Exactness
import Lox.Proofs.Joined
import Lox.Proofs.Inclusion
import Lox.Proofs.Locality
import Lox.Proofs.Dialogue
import Lox.Proofs.Numbers
import Lox.Proofs.Super
import Lox.Proofs.Limit
import Lox.Proofs.Directories
import Lox.Proofs.Printing
import Lox.Proofs.Receivers
import Lox.Proofs.Token.Partition
import Lox.Proofs.Scope.Restoring
import Lox.Proofs.Members
import Lox.Proofs.Loops
import Lox.Proofs.Environments
import Lox.Proofs.Properties
import Lox.Proofs.Parse.Progress
import Lox.Proofs.Lines
import Lox.Proofs.Token.Respacing
import Lox.Proofs.Prompt
import Lox.Proofs.Dump
import Lox.Proofs.Arguments
